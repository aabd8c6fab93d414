import ProtobufMq.Client.Threads

namespace ProtobufMq
namespace Client

open Foundation

/-!
# Every response reaches the call that it answers

Calls wait in one map and on one condition variable for each channel, and a
put wakes all of them; a call goes on only when its own id is there.  The
invariant follows the ids.  Between a request and the return of its call, the
id is in exactly one place: with the server, on the way back, among the tasks,
in a batch, or in the map of its channel.
-/

/-- A list around one of its places. -/
theorem split_at {α : Type} {items : List α} {index : Nat} {item : α}
    (there : items[index]? = some item) :
    ∃ before after, items = before ++ item :: after ∧
      (∀ other, items.set index other = before ++ other :: after) ∧
      items.eraseIdx index = before ++ after := by
  rcases List.getElem?_eq_some_iff.mp there with ⟨within, same⟩
  refine ⟨items.take index, items.drop (index + 1), ?_, fun other => ?_, ?_⟩
  · rw [← same, List.cons_getElem_drop_succ, List.take_append_drop]
  · exact List.set_eq_take_append_cons_drop.trans (if_pos within)
  · exact List.eraseIdx_eq_take_drop_succ items index

/-! ## Where the ids are -/

/-- The ids of the channel and of the request. -/
abbrev Ids := Bytes × Bytes

/-- The ids of a call. -/
def Calling.ids (calling : Calling) : Ids := (calling.cid, calling.rid)

/-- The ids of a response. -/
def Response.ids (resp : Response) : Ids := (resp.cid, resp.rid)

/-- The ids of a request. -/
def packetIds (packet : Packet) : Ids := (packet.cid, packet.rid)

/-- The ids of the response that a task puts. -/
def Task.ids : Task → Option Ids
  | .putBasicResponse resp => some resp.ids
  | .consume _ => none

/-- The ids of a response on the way. -/
def Arrival.ids (arrival : Arrival) : Option Ids := arrival.task.ids

@[simp] theorem Task.ids_putBasicResponse (resp : Response) :
    (Task.putBasicResponse resp).ids = some resp.ids := rfl

@[simp] theorem Task.ids_consume (push : Push) : (Task.consume push).ids = none := rfl

@[simp] theorem Arrival.ids_response (resp : Response) :
    (Arrival.response resp).ids = some resp.ids := rfl

@[simp] theorem Arrival.ids_push (message : Push) : (Arrival.push message).ids = none := rfl

namespace Machine

/-- The ids of the responses that have not been put into a map: those of the
requests that are not answered, and of the responses on the way, among the
tasks, and in the batches. -/
def moving (machine : Machine) : List Ids :=
  machine.requests.map packetIds ++ machine.transit.filterMap Arrival.ids ++
    machine.taskpool.filterMap Task.ids ++
    machine.workers.flatMap fun worker => worker.batch.filterMap Task.ids

/-- The ids that somebody waits for. -/
def waiting (machine : Machine) : List Ids :=
  machine.callers.map Calling.ids ++
    machine.workers.filterMap fun worker => worker.acking.map Calling.ids

/-- The calls that have their responses. -/
def answered (machine : Machine) : List (Calling × Response) :=
  machine.woken ++ machine.returned

/-- The response in the map of a channel. -/
def response (machine : Machine) (ids : Ids) : Option Response :=
  (machine.channels.lookup ids.1).bind fun channel => channel.basicResp.lookup ids.2

/-- What the responses owe to the calls. -/
structure Delivered (machine : Machine) : Prop where
  /-- A call returns with the response to its own request. -/
  own : ∀ pair ∈ machine.returned, pair.2.rid = pair.1.rid
  /-- No response is returned twice. -/
  once : (machine.returned.map fun pair => pair.2.rid).Nodup
  /-- The response that a call waits for is still to come, or there to be taken. -/
  underway : ∀ ids ∈ machine.waiting, ids ∈ machine.moving ∨ (machine.response ids).isSome
  /-- Nothing is left in the map of a channel on which nobody waits. -/
  empty : ∀ cid channel, machine.channels.lookup cid = some channel →
    (∀ ids ∈ machine.waiting, ids.1 ≠ cid) → channel.basicResp = ∅
  /-- What arrives finds its channel. -/
  found : ∀ arrival ∈ machine.transit, arrival.cid ∈ machine.channels

/-- Every id is in one place. -/
structure Accounted (machine : Machine) : Prop where
  moves : (machine.moving.map Prod.snd).Nodup
  rests : ∀ ids resp, machine.response ids = some resp → ids.2 ∉ machine.moving.map Prod.snd
  awaited : ∀ ids, ids ∈ machine.waiting ↔ ids ∈ machine.moving ∨ (machine.response ids).isSome
  single : (machine.waiting.map Prod.snd).Nodup
  young : ∀ ids ∈ machine.waiting, ids.2 ∈ machine.issued
  own : ∀ pair ∈ machine.answered, pair.2.rid = pair.1.rid
  past : ∀ pair ∈ machine.answered, pair.1.rid ∈ machine.issued ∧
    pair.1.rid ∉ machine.waiting.map Prod.snd
  once : (machine.answered.map fun pair => pair.1.rid).Nodup

/-- The channels and what is known about them. -/
structure Charted (machine : Machine) : Prop where
  names : ∀ cid channel, machine.channels.lookup cid = some channel → channel.cid = cid
  keys : ∀ ids resp, machine.response ids = some resp → resp.rid = ids.2
  asked : ∀ ids ∈ machine.waiting, ids.1 ∈ machine.channels
  subscribed : ∀ entry ∈ machine.registered, entry.1 ∈ machine.channels
  coming : ∀ message, .push message ∈ machine.transit → message.cid ∈ machine.channels

section Accounting

variable {machine next : Machine}

/-- The ids are where they were. -/
theorem Accounted.same (accounted : machine.Accounted) (moving : next.moving.Perm machine.moving)
    (waiting : next.waiting.Perm machine.waiting)
    (response : ∀ ids, next.response ids = machine.response ids)
    (issued : next.issued = machine.issued)
    (answered : next.answered.Perm machine.answered) : next.Accounted where
  moves := (moving.map _).nodup_iff.mpr accounted.moves
  rests := by
    intro ids resp there
    rw [(moving.map _).mem_iff]
    exact accounted.rests ids resp (response ids ▸ there)
  awaited := by
    intro ids
    rw [waiting.mem_iff, moving.mem_iff, response]
    exact accounted.awaited ids
  single := (waiting.map _).nodup_iff.mpr accounted.single
  young := by
    intro ids member
    rw [issued]
    exact accounted.young ids (waiting.mem_iff.mp member)
  own := fun pair member => accounted.own pair (answered.mem_iff.mp member)
  past := by
    intro pair member
    rw [issued, (waiting.map _).mem_iff]
    exact accounted.past pair (answered.mem_iff.mp member)
  once := (answered.map _).nodup_iff.mpr accounted.once

/-- A request is sent, with a new id. -/
theorem Accounted.sent (accounted : machine.Accounted) {ids : Ids} (fresh : ids.2 ∉ machine.issued)
    (moving : next.moving.Perm (ids :: machine.moving))
    (waiting : next.waiting.Perm (ids :: machine.waiting))
    (response : ∀ other, next.response other = machine.response other)
    (issued : next.issued = ids.2 :: machine.issued)
    (answered : next.answered = machine.answered) : next.Accounted := by
  have unwaited : ids.2 ∉ machine.waiting.map Prod.snd := by
    intro member
    rcases List.mem_map.mp member with ⟨other, otherMember, same⟩
    exact fresh (same ▸ accounted.young other otherMember)
  have unmoved : ids.2 ∉ machine.moving.map Prod.snd := by
    intro member
    rcases List.mem_map.mp member with ⟨other, otherMember, same⟩
    exact unwaited (same ▸ List.mem_map_of_mem ((accounted.awaited other).mpr (Or.inl otherMember)))
  refine ⟨?_, ?_, ?_, ?_, ?_, ?_, ?_, ?_⟩
  · rw [(moving.map _).nodup_iff, List.map_cons, List.nodup_cons]
    exact ⟨unmoved, accounted.moves⟩
  · intro other resp there
    rw [response] at there
    rw [(moving.map _).mem_iff, List.map_cons, List.mem_cons, not_or]
    refine ⟨fun same => ?_, accounted.rests other resp there⟩
    have member := (accounted.awaited other).mpr (Or.inr (by rw [there]; rfl))
    exact unwaited (same ▸ List.mem_map_of_mem member)
  · intro other
    rw [waiting.mem_iff, moving.mem_iff, response, List.mem_cons, List.mem_cons,
      accounted.awaited other, or_assoc]
  · rw [(waiting.map _).nodup_iff, List.map_cons, List.nodup_cons]
    exact ⟨unwaited, accounted.single⟩
  · intro other member
    rw [issued, List.mem_cons]
    rcases List.mem_cons.mp (waiting.mem_iff.mp member) with same | old
    · exact Or.inl (congrArg Prod.snd same)
    · exact Or.inr (accounted.young other old)
  · rw [answered]
    exact accounted.own
  · rw [answered]
    intro pair member
    rcases accounted.past pair member with ⟨given, apart⟩
    rw [issued, (waiting.map _).mem_iff, List.map_cons, List.mem_cons, List.mem_cons, not_or]
    exact ⟨Or.inr given, fun same => fresh (same ▸ given), apart⟩
  · rw [answered]
    exact accounted.once

/-- A response is put into the map of its channel. -/
theorem Accounted.put (accounted : machine.Accounted) {resp : Response}
    (moving : machine.moving.Perm (resp.ids :: next.moving))
    (waiting : next.waiting = machine.waiting)
    (response : ∀ ids, next.response ids =
      if ids = resp.ids then some resp else machine.response ids)
    (issued : next.issued = machine.issued) (answered : next.answered = machine.answered) :
    next.Accounted := by
  have moves := accounted.moves
  rw [(moving.map _).nodup_iff, List.map_cons, List.nodup_cons] at moves
  refine ⟨moves.2, ?_, ?_, ?_, ?_, ?_, ?_, ?_⟩
  · intro ids other there
    rw [response] at there
    by_cases same : ids = resp.ids
    · rw [same]
      exact moves.1
    · rw [if_neg same] at there
      have apart := accounted.rests ids other there
      rw [(moving.map _).mem_iff, List.map_cons, List.mem_cons, not_or] at apart
      exact apart.2
  · intro ids
    rw [waiting, accounted.awaited, moving.mem_iff, List.mem_cons, response]
    by_cases same : ids = resp.ids
    · rw [if_pos same]
      exact ⟨fun _ => Or.inr rfl, fun _ => Or.inl (Or.inl same)⟩
    · rw [if_neg same, or_iff_right same]
  · rw [waiting]
    exact accounted.single
  · rw [waiting, issued]
    exact accounted.young
  · rw [answered]
    exact accounted.own
  · rw [answered, waiting, issued]
    exact accounted.past
  · rw [answered]
    exact accounted.once

/-- A call takes its response. -/
theorem Accounted.taken (accounted : machine.Accounted) {calling : Calling} {resp : Response}
    (there : machine.response calling.ids = some resp) (own : resp.rid = calling.rid)
    (moving : next.moving.Perm machine.moving)
    (waiting : machine.waiting.Perm (calling.ids :: next.waiting))
    (response : ∀ ids, next.response ids =
      if ids = calling.ids then none else machine.response ids)
    (issued : next.issued = machine.issued)
    (answered : next.answered.Perm ((calling, resp) :: machine.answered)) : next.Accounted := by
  have single := accounted.single
  rw [(waiting.map _).nodup_iff, List.map_cons, List.nodup_cons] at single
  have unmoved := accounted.rests calling.ids resp there
  have listed : calling.ids ∈ machine.waiting := waiting.mem_iff.mpr List.mem_cons_self
  have apart : ∀ pair ∈ machine.answered, pair.1.rid ≠ calling.rid := by
    intro pair member same
    exact (accounted.past pair member).2 (same ▸ List.mem_map_of_mem listed)
  refine ⟨?_, ?_, ?_, single.2, ?_, ?_, ?_, ?_⟩
  · exact (moving.map _).nodup_iff.mpr accounted.moves
  · intro ids other still
    rw [response] at still
    by_cases same : ids = calling.ids
    · rw [if_pos same] at still
      cases still
    · rw [if_neg same] at still
      rw [(moving.map _).mem_iff]
      exact accounted.rests ids other still
  · intro ids
    rw [moving.mem_iff, response]
    have before := accounted.awaited ids
    rw [waiting.mem_iff, List.mem_cons] at before
    by_cases same : ids = calling.ids
    · rw [if_pos same]
      subst same
      refine ⟨fun member => absurd (List.mem_map_of_mem member) single.1, ?_⟩
      rintro (still | impossible)
      · exact absurd (List.mem_map_of_mem still) unmoved
      · cases impossible
    · rw [if_neg same, ← before, or_iff_right same]
  · intro ids member
    rw [issued]
    exact accounted.young ids (waiting.mem_iff.mpr (List.mem_cons_of_mem _ member))
  · intro pair member
    rcases List.mem_cons.mp (answered.mem_iff.mp member) with rfl | old
    · exact own
    · exact accounted.own pair old
  · intro pair member
    rw [issued]
    rcases List.mem_cons.mp (answered.mem_iff.mp member) with rfl | old
    · exact ⟨accounted.young calling.ids listed, single.1⟩
    · rcases accounted.past pair old with ⟨given, gone⟩
      rw [(waiting.map _).mem_iff, List.map_cons, List.mem_cons, not_or] at gone
      exact ⟨given, gone.2⟩
  · rw [(answered.map _).nodup_iff, List.map_cons, List.nodup_cons]
    refine ⟨fun member => ?_, accounted.once⟩
    rcases List.mem_map.mp member with ⟨pair, listed, same⟩
    exact apart pair listed same

end Accounting

/-! ## What the steps do to the ids -/

section Steps

variable {machine next : Machine}

theorem response_withChannel (machine : Machine) (cid : Bytes) (channel : Channel) (ids : Ids) :
    (machine.withChannel cid channel).response ids =
      if ids.1 = cid then channel.basicResp.lookup ids.2 else machine.response ids := by
  unfold response withChannel
  rw [Dictionary.lookup_assign]
  by_cases same : ids.1 = cid
  · rw [if_pos same, if_pos same]
    rfl
  · rw [if_neg same, if_neg same]

theorem response_of_lookup {cid : Bytes} {channel : Channel}
    (found : machine.channels.lookup cid = some channel) (rid : Bytes) :
    machine.response (cid, rid) = channel.basicResp.lookup rid := by
  rw [response, found]
  rfl

theorem response_put {resp : Response} {channel : Channel}
    (found : machine.channels.lookup resp.cid = some channel) (ids : Ids) :
    (machine.withChannel resp.cid (channel.putBasicResponse resp)).response ids =
      if ids = resp.ids then some resp else machine.response ids := by
  rcases ids with ⟨cid, rid⟩
  rw [response_withChannel, Channel.putBasicResponse]
  simp only [Dictionary.lookup_assign, Response.ids, Prod.mk.injEq]
  by_cases same : cid = resp.cid
  · subst same
    rw [if_pos rfl, response_of_lookup found]
    simp only [true_and]
  · rw [if_neg same, if_neg fun both => same both.1]

/-- A call goes on when its response is in the map, and takes it. -/
theorem answer_eq_some {calling : Calling} {resp : Response} {channel : Channel}
    (answered : machine.answer calling = some (resp, channel)) :
    machine.response calling.ids = some resp ∧
      (∃ before, machine.channels.lookup calling.cid = some before ∧ channel.cid = before.cid ∧
        channel.consumerPtr = before.consumerPtr) ∧
      ∀ ids, (machine.withChannel calling.cid channel).response ids =
        if ids = calling.ids then none else machine.response ids := by
  rcases Option.bind_eq_some_iff.mp answered with ⟨before, found, waits⟩
  rcases Option.map_eq_some_iff.mp waits with ⟨other, there, same⟩
  cases same
  refine ⟨(response_of_lookup found calling.rid).trans there, ⟨before, found, rfl, rfl⟩, ?_⟩
  rintro ⟨cid, rid⟩
  rw [response_withChannel]
  simp only [Dictionary.lookup_erase, Calling.ids, Prod.mk.injEq]
  by_cases own : cid = calling.cid
  · subst own
    rw [if_pos rfl, response_of_lookup found]
    simp only [true_and]
  · rw [if_neg own, if_neg fun both => own both.1]

/-- Finishing a call leaves the responses alone. -/
theorem response_finish {calling : Calling} {resp : Response} {channels : Dictionary Bytes Channel}
    (done : (machine.channels.lookup calling.cid = none ∧ channels = machine.channels) ∨
      ∃ channel, machine.channels.lookup calling.cid = some channel ∧
        channels = Dictionary.assign calling.cid (channel.finish resp calling.call)
          machine.channels) (ids : Ids) :
    (channels.lookup ids.1).bind (fun channel => channel.basicResp.lookup ids.2) =
      machine.response ids := by
  rcases done with ⟨_, same⟩ | ⟨channel, found, same⟩
  · rw [same]
    rfl
  · rcases ids with ⟨cid, rid⟩
    rw [same, Dictionary.lookup_assign]
    by_cases own : cid = calling.cid
    · subst own
      rw [if_pos rfl, response_of_lookup found]
      exact congrArg (AList.lookup rid) (channel.finish_basicResp resp calling.call)
    · rw [if_neg own]
      rfl

/-- A worker may drop a task that puts no response. -/
theorem Accounted.skip (accounted : machine.Accounted) {index : Nat} {push : Push}
    {rest : List Task} (there : machine.workers[index]? = some ⟨.consume push :: rest, none⟩) :
    (machine.withWorker index ⟨rest, none⟩).Accounted := by
  rcases split_at there with ⟨before, after, whole, set, _⟩
  refine accounted.same ?_ ?_ (fun _ => rfl) rfl (List.Perm.refl _)
  · simp only [moving, withWorker, set]
    rw [whole]
    simp only [List.filterMap_cons, Task.ids_consume, List.flatMap_append, List.flatMap_cons]
    exact List.Perm.refl _
  · simp only [waiting, withWorker, set]
    rw [whole]
    simp only [List.filterMap_append, List.filterMap_cons, Option.map_none]
    exact List.Perm.refl _

/-- Every step accounts for the ids. -/
theorem accounted_turn {event : Event} (charted : machine.Charted) (accounted : machine.Accounted)
    (turn : Turn machine event next) : next.Accounted := by
  cases turn with
  | still => exact accounted
  | @created cid absent =>
      refine accounted.same (List.Perm.refl _) (List.Perm.refl _) (fun ids => ?_) rfl
        (List.Perm.refl _)
      unfold response
      rw [Dictionary.lookup_insert]
      by_cases same : ids.1 = cid
      · rw [if_pos same, same, AList.lookup_eq_none.mpr absent]
        rfl
      · rw [if_neg same]
  | @called cid rid call channel packet found fresh sent =>
      rcases channel.send_ids rid sent with ⟨sameRid, sameCid⟩
      have same : packetIds packet = (cid, rid) :=
        Prod.ext (sameCid.trans (charted.names cid channel found)) sameRid
      refine @Accounted.sent _ _ accounted (cid, rid) fresh ?_ ?_ (fun _ => rfl)
        (congrArg (· :: machine.issued) sameRid) rfl
      · rw [List.perm_iff_count]
        intro ids
        simp only [moving, sending, List.map_append, List.map_cons, List.map_nil, same,
          List.count_append, List.count_cons, List.count_nil]
        omega
      · rw [List.perm_iff_count]
        intro ids
        simp only [waiting, sending, List.map_append, List.map_cons, List.map_nil, Calling.ids,
          List.count_append, List.count_cons, List.count_nil]
        omega
  | @registered index rid cid tag qname autoAck there =>
      exact accounted.same (List.Perm.refl _) (List.Perm.refl _) (fun _ => rfl) rfl
        (List.Perm.refl _)
  | deregistered fewer =>
      exact accounted.same (List.Perm.refl _) (List.Perm.refl _) (fun _ => rfl) rfl
        (List.Perm.refl _)
  | @replied index ok packet there =>
      rcases split_at there with ⟨before, after, whole, _, erased⟩
      refine accounted.same ?_ (List.Perm.refl _) (fun _ => rfl) rfl (List.Perm.refl _)
      rw [List.perm_iff_count]
      intro ids
      have same : (⟨packet.rid, packet.cid, ok⟩ : Response).ids = packetIds packet := rfl
      simp only [moving, erased, List.filterMap_append, List.filterMap_cons, Arrival.ids_response,
        List.filterMap_nil, same]
      simp only [whole, List.map_append, List.map_cons, List.count_append, List.count_cons,
        List.count_nil]
      omega
  | @pushed push known =>
      refine accounted.same ?_ (List.Perm.refl _) (fun _ => rfl) rfl (List.Perm.refl _)
      simp only [moving, List.filterMap_append, List.filterMap_cons, Arrival.ids_push,
        List.filterMap_nil, List.append_nil]
      exact List.Perm.refl _
  | @arrived index arrival there =>
      rcases split_at there with ⟨before, after, whole, _, erased⟩
      refine accounted.same ?_ (List.Perm.refl _) (fun _ => rfl) rfl (List.Perm.refl _)
      rw [List.perm_iff_count]
      intro ids
      simp only [moving, erased]
      rw [whole]
      cases arrival with
      | response resp =>
          simp only [Arrival.task, List.filterMap_append, List.filterMap_cons,
            Arrival.ids_response, Task.ids_putBasicResponse, List.filterMap_nil,
            List.count_append, List.count_cons, List.count_nil]
          omega
      | push message =>
          simp only [Arrival.task, List.filterMap_append, List.filterMap_cons, Arrival.ids_push,
            Task.ids_consume, List.filterMap_nil, List.append_nil]
  | @fetched index there =>
      rcases split_at there with ⟨before, after, whole, set, _⟩
      refine accounted.same ?_ ?_ (fun _ => rfl) rfl (List.Perm.refl _)
      · rw [List.perm_iff_count]
        intro ids
        simp only [moving, withWorker, set]
        rw [whole]
        simp only [List.filterMap_nil, List.flatMap_append, List.flatMap_cons, List.count_append,
          List.count_nil]
        omega
      · simp only [waiting, withWorker, set]
        rw [whole]
        simp only [List.filterMap_append, List.filterMap_cons, Option.map_none]
        exact List.Perm.refl _
  | @put index rid resp rest channel there found =>
      rcases split_at there with ⟨before, after, whole, set, _⟩
      refine accounted.put ?_ ?_ (response_put found) rfl rfl
      · rw [List.perm_iff_count]
        intro ids
        simp only [moving, withWorker, withChannel, set]
        rw [whole]
        simp only [List.filterMap_cons, Task.ids_putBasicResponse, List.flatMap_append,
          List.flatMap_cons, List.count_append, List.count_cons]
        omega
      · simp only [waiting, withWorker, withChannel, set]
        rw [whole]
        simp only [List.filterMap_append, List.filterMap_cons, Option.map_none]
  | @misput index rid resp rest there missing =>
      rcases split_at there with ⟨before, after, whole, _, _⟩
      have member : resp.ids ∈ machine.moving := by
        apply List.mem_append_right
        rw [whole]
        simp only [List.flatMap_append, List.flatMap_cons, List.filterMap_cons,
          Task.ids_putBasicResponse, List.mem_append, List.mem_cons, true_or, or_true]
      have known := charted.asked resp.ids ((accounted.awaited resp.ids).mpr (Or.inl member))
      exact absurd known (AList.lookup_eq_none.mp missing)
  | @ignored index rid push rest there nobody =>
      exact accounted.skip there
  | @handed index rid push rest channel consumer there found accepts returns =>
      exact (accounted.skip there).same (List.Perm.refl _) (List.Perm.refl _) (fun _ => rfl) rfl
        (List.Perm.refl _)
  | @acked index rid push rest channel consumer packet there found accepts acknowledges fresh sent =>
      rcases split_at there with ⟨before, after, whole, set, _⟩
      have subscribed := (channel.consume_eq_some.mp accepts).1
      rw [Channel.basicAck, subscribed] at sent
      cases sent
      have same : packetIds (channel.ask rid (.basicAck consumer.qname push.messageId)) =
          (push.cid, rid) := Prod.ext (charted.names push.cid channel found) rfl
      refine @Accounted.sent _ _ accounted (push.cid, rid) fresh ?_ ?_ (fun _ => rfl) rfl rfl
      · rw [List.perm_iff_count]
        intro ids
        simp only [moving, sending, set]
        rw [whole]
        simp only [List.map_append, List.map_cons, List.map_nil, same, List.filterMap_cons,
          Task.ids_consume, List.flatMap_append, List.flatMap_cons, List.count_append,
          List.count_cons, List.count_nil]
        omega
      · rw [List.perm_iff_count]
        intro ids
        simp only [waiting, sending, set]
        rw [whole]
        simp only [List.filterMap_append, List.filterMap_cons, Option.map_none, Option.map_some,
          Calling.ids, List.count_append, List.count_cons]
        omega
  | @resumed index rest calling resp channel there answered =>
      rcases split_at there with ⟨before, after, whole, set, _⟩
      rcases answer_eq_some answered with ⟨stored, _, response⟩
      refine accounted.taken stored (charted.keys calling.ids resp stored) ?_ ?_ response rfl ?_
      · simp only [moving, withWorker, withChannel, set]
        rw [whole]
        simp only [List.flatMap_append, List.flatMap_cons]
        exact List.Perm.refl _
      · rw [List.perm_iff_count]
        intro ids
        simp only [waiting, withWorker, withChannel, set]
        rw [whole]
        simp only [List.filterMap_append, List.filterMap_cons, Option.map_none, Option.map_some,
          List.count_append, List.count_cons]
        omega
      · change (machine.woken ++ (machine.returned ++ [(calling, resp)])).Perm _
        rw [← List.append_assoc]
        exact List.perm_append_singleton _ _
  | @woke index calling resp channel there answered =>
      rcases split_at there with ⟨before, after, whole, _, erased⟩
      rcases answer_eq_some answered with ⟨stored, _, response⟩
      refine accounted.taken stored (charted.keys calling.ids resp stored) (List.Perm.refl _) ?_
        response rfl ?_
      · rw [List.perm_iff_count]
        intro ids
        simp only [waiting, withChannel, erased]
        rw [whole]
        simp only [List.map_append, List.map_cons, List.count_append, List.count_cons]
        omega
      · exact (List.perm_append_singleton _ _).append_right _
  | @finished index calling resp channels there done =>
      rcases split_at there with ⟨before, after, whole, _, erased⟩
      refine accounted.same (List.Perm.refl _) (List.Perm.refl _) (response_finish done) rfl ?_
      change (machine.woken.eraseIdx index ++ (machine.returned ++ [(calling, resp)])).Perm
        (machine.woken ++ machine.returned)
      rw [erased, whole, ← List.append_assoc]
      exact (List.perm_append_singleton _ _).trans (List.perm_middle.symm.append_right _)

/-- The steps leave the table as it is, enter a channel, or change one that is
there. -/
theorem channels_turn {event : Event} (turn : Turn machine event next) :
    next.channels = machine.channels ∨
    (∃ cid, cid ∉ machine.channels ∧ next.channels = machine.channels.insert cid { cid := cid }) ∨
    ∃ cid before after, machine.channels.lookup cid = some before ∧ after.cid = before.cid ∧
      next.channels = Dictionary.assign cid after machine.channels := by
  cases turn with
  | @created cid absent => exact Or.inr (Or.inl ⟨cid, absent, rfl⟩)
  | @put index rid resp rest channel there found =>
      exact Or.inr (Or.inr ⟨resp.cid, channel, channel.putBasicResponse resp, found, rfl, rfl⟩)
  | @resumed index rest calling resp channel there answered =>
      rcases answer_eq_some answered with ⟨_, ⟨before, found, same, _⟩, _⟩
      exact Or.inr (Or.inr ⟨calling.cid, before, channel, found, same, rfl⟩)
  | @woke index calling resp channel there answered =>
      rcases answer_eq_some answered with ⟨_, ⟨before, found, same, _⟩, _⟩
      exact Or.inr (Or.inr ⟨calling.cid, before, channel, found, same, rfl⟩)
  | @finished index calling resp channels there done =>
      rcases done with ⟨_, same⟩ | ⟨channel, found, same⟩
      · exact Or.inl same
      · exact Or.inr (Or.inr ⟨calling.cid, channel, channel.finish resp calling.call, found,
          channel.finish_cid resp calling.call, same⟩)
  | _ => exact Or.inl rfl

/-- No channel leaves the table. -/
theorem channels_mono {event : Event} (turn : Turn machine event next) {cid : Bytes}
    (there : cid ∈ machine.channels) : cid ∈ next.channels := by
  rcases channels_turn turn with same | ⟨other, _, same⟩ | ⟨other, before, after, _, _, same⟩
  · rw [same]
    exact there
  · rw [same, AList.mem_insert]
    exact Or.inr there
  · rcases Dictionary.mem_iff_lookup.mp there with ⟨channel, found⟩
    rw [same, Dictionary.mem_iff_lookup, Dictionary.lookup_assign]
    by_cases own : cid = other
    · exact ⟨after, if_pos own⟩
    · exact ⟨channel, (if_neg own).trans found⟩

/-- Every channel stays under its own name. -/
theorem names_turn {event : Event} (charted : machine.Charted) (turn : Turn machine event next)
    {cid : Bytes} {channel : Channel} (found : next.channels.lookup cid = some channel) :
    channel.cid = cid := by
  rcases channels_turn turn with same | ⟨other, _, same⟩ | ⟨other, before, after, there, own, same⟩
  · rw [same] at found
    exact charted.names cid channel found
  · rw [same, Dictionary.lookup_insert] at found
    by_cases equal : cid = other
    · rw [if_pos equal] at found
      cases found
      exact equal.symm
    · rw [if_neg equal] at found
      exact charted.names cid channel found
  · rw [same, Dictionary.lookup_assign] at found
    by_cases equal : cid = other
    · rw [if_pos equal] at found
      cases found
      exact own.trans ((charted.names other before there).trans equal.symm)
    · rw [if_neg equal] at found
      exact charted.names cid channel found

/-- Whoever starts to wait waits on a channel of the table. -/
theorem waiting_turn {event : Event} (turn : Turn machine event next) {ids : Ids}
    (member : ids ∈ next.waiting) : ids ∈ machine.waiting ∨ ids.1 ∈ machine.channels := by
  have worker_of_set : ∀ {index : Nat} {other : Worker} {ids : Ids},
      ids ∈ (machine.workers.set index other).filterMap
        (fun worker => worker.acking.map Calling.ids) →
      ids ∈ machine.waiting ∨ other.acking.map Calling.ids = some ids := by
    intro index other ids member
    rcases List.mem_filterMap.mp member with ⟨worker, among, own⟩
    rcases List.mem_or_eq_of_mem_set among with old | new
    · exact Or.inl (List.mem_append_right _ (List.mem_filterMap.mpr ⟨worker, old, own⟩))
    · exact Or.inr (new ▸ own)
  have moved : ∀ {index : Nat} {batch : List Task} {ids : Ids},
      ids ∈ machine.callers.map Calling.ids ++ (machine.workers.set index ⟨batch, none⟩).filterMap
        (fun worker => worker.acking.map Calling.ids) → ids ∈ machine.waiting := by
    intro index batch ids member
    rcases List.mem_append.mp member with caller | worker
    · exact List.mem_append_left _ caller
    · rcases worker_of_set worker with old | new
      · exact old
      · cases new
  cases turn with
  | @called cid rid call channel packet found fresh sent =>
      rcases List.mem_append.mp member with caller | worker
      · rw [List.map_append] at caller
        rcases List.mem_append.mp caller with old | new
        · exact Or.inl (List.mem_append_left _ old)
        · cases List.mem_singleton.mp new
          exact Or.inr (Dictionary.mem_iff_lookup.mpr ⟨channel, found⟩)
      · exact Or.inl (List.mem_append_right _ worker)
  | @acked index rid push rest channel consumer packet there found accepts acknowledges fresh sent =>
      rcases List.mem_append.mp member with caller | worker
      · exact Or.inl (List.mem_append_left _ caller)
      · rcases worker_of_set worker with old | new
        · exact Or.inl old
        · cases new
          exact Or.inr (Dictionary.mem_iff_lookup.mpr ⟨channel, found⟩)
  | @woke index calling resp channel there answered =>
      rcases List.mem_append.mp member with caller | worker
      · rcases List.mem_map.mp caller with ⟨other, still, same⟩
        exact Or.inl (List.mem_append_left _
          (List.mem_map.mpr ⟨other, List.mem_of_mem_eraseIdx still, same⟩))
      · exact Or.inl (List.mem_append_right _ worker)
  | fetched | put | misput | ignored | handed | resumed => exact Or.inl (moved member)
  | _ => exact Or.inl member

/-- What gets into a map is under its own id. -/
theorem response_turn {event : Event} (turn : Turn machine event next) {ids : Ids}
    {resp : Response} (there : next.response ids = some resp) :
    machine.response ids = some resp ∨ resp.rid = ids.2 := by
  cases turn with
  | @created cid absent =>
      unfold response at there ⊢
      rw [Dictionary.lookup_insert] at there
      by_cases same : ids.1 = cid
      · rw [if_pos same] at there
        cases there
      · rw [if_neg same] at there
        exact Or.inl there
  | @put index rid other rest channel _ found =>
      have there := (response_put found ids).symm.trans there
      by_cases same : ids = other.ids
      · rw [if_pos same] at there
        cases there
        exact Or.inr (same ▸ rfl)
      · rw [if_neg same] at there
        exact Or.inl there
  | @resumed index rest calling other channel _ answered =>
      have there := ((answer_eq_some answered).2.2 ids).symm.trans there
      by_cases same : ids = calling.ids
      · rw [if_pos same] at there
        cases there
      · rw [if_neg same] at there
        exact Or.inl there
  | @woke index calling other channel _ answered =>
      have there := ((answer_eq_some answered).2.2 ids).symm.trans there
      by_cases same : ids = calling.ids
      · rw [if_pos same] at there
        cases there
      · rw [if_neg same] at there
        exact Or.inl there
  | finished _ done => exact Or.inl ((response_finish done ids).symm.trans there)
  | _ => exact Or.inl there

/-- Who has sent a request waits for its response. -/
theorem Accounted.requested (accounted : machine.Accounted) {packet : Packet}
    (member : packet ∈ machine.requests) : packetIds packet ∈ machine.waiting := by
  apply (accounted.awaited _).mpr
  left
  apply List.mem_append_left
  apply List.mem_append_left
  apply List.mem_append_left
  exact List.mem_map_of_mem member

/-- Every step keeps the chart. -/
theorem charted_turn {event : Event} (charted : machine.Charted) (accounted : machine.Accounted)
    (turn : Turn machine event next) : next.Charted := by
  have kept : ∀ cid, cid ∈ machine.channels → cid ∈ next.channels :=
    fun cid there => channels_mono turn there
  refine ⟨fun cid channel found => names_turn charted turn found, ?_, ?_, ?_, ?_⟩
  · intro ids resp there
    rcases response_turn turn there with old | own
    · exact charted.keys ids resp old
    · exact own
  · intro ids member
    rcases waiting_turn turn member with old | known
    · exact kept _ (charted.asked ids old)
    · exact kept _ known
  · intro entry member
    apply kept
    cases turn with
    | @registered index rid cid tag qname autoAck there =>
        rcases List.mem_append.mp member with old | new
        · exact charted.subscribed entry old
        · cases List.mem_singleton.mp new
          exact charted.asked (cid, rid) (accounted.requested (List.mem_of_getElem? there))
    | deregistered fewer => exact charted.subscribed entry (fewer member)
    | _ => exact charted.subscribed entry member
  · intro message member
    apply kept
    cases turn with
    | replied there =>
        rcases List.mem_append.mp member with old | new
        · exact charted.coming message old
        · cases List.mem_singleton.mp new
    | pushed known =>
        rcases List.mem_append.mp member with old | new
        · exact charted.coming message old
        · cases List.mem_singleton.mp new
          exact charted.subscribed _ known
    | arrived there => exact charted.coming message (List.mem_of_mem_eraseIdx member)
    | _ => exact charted.coming message member

end Steps

/-! ## In every run -/

/-- The ids are accounted for and the channels are charted. -/
def Tracked (machine : Machine) : Prop :=
  machine.Accounted ∧ machine.Charted

theorem tracked_step (machine : Machine) (event : Event) (next : Machine)
    (tracked : machine.Tracked) (_ : True) (stepped : perform machine event = .ok next) :
    next.Tracked :=
  have turn := perform_turn stepped
  ⟨accounted_turn tracked.2 tracked.1 turn, charted_turn tracked.2 tracked.1 turn⟩

@[simp] theorem moving_start (workers : Nat) : (start workers).moving = [] := by
  simp [moving, start]

@[simp] theorem waiting_start (workers : Nat) : (start workers).waiting = [] := by
  simp [waiting, start]

@[simp] theorem response_start (workers : Nat) (ids : Ids) :
    (start workers).response ids = none := rfl

theorem tracked_start (workers : Nat) : (start workers).Tracked := by
  refine ⟨⟨?_, ?_, ?_, ?_, ?_, ?_, ?_, ?_⟩, ⟨?_, ?_, ?_, ?_, ?_⟩⟩
  · rw [moving_start]
    exact List.nodup_nil
  · exact nofun
  · intro ids
    simp
  · rw [waiting_start]
    exact List.nodup_nil
  · rw [waiting_start]
    exact nofun
  · exact nofun
  · exact nofun
  · exact List.nodup_nil
  · exact nofun
  · exact nofun
  · rw [waiting_start]
    exact nofun
  · exact nofun
  · exact nofun

/-- Where the ids are accounted for, the responses are delivered. -/
theorem Tracked.delivered {machine : Machine} (tracked : machine.Tracked) : machine.Delivered := by
  rcases tracked with ⟨accounted, charted⟩
  have returned : ∀ pair ∈ machine.returned, pair ∈ machine.answered :=
    fun pair member => List.mem_append_right _ member
  refine ⟨fun pair member => accounted.own pair (returned pair member), ?_,
    fun ids member => (accounted.awaited ids).mp member, ?_, ?_⟩
  · have same : machine.returned.map (fun pair => pair.2.rid) =
        machine.returned.map (fun pair => pair.1.rid) :=
      List.map_congr_left fun pair member => accounted.own pair (returned pair member)
    have once := accounted.once
    rw [answered, List.map_append] at once
    rw [same]
    exact once.of_append_right
  · intro cid channel found nobody
    apply Dictionary.eq_empty
    intro rid
    cases there : channel.basicResp.lookup rid with
    | none => rfl
    | some resp =>
        have stored := (response_of_lookup found rid).trans there
        have awaited := (accounted.awaited (cid, rid)).mpr (Or.inr (by rw [stored]; rfl))
        exact absurd rfl (nobody (cid, rid) awaited)
  · intro arrival member
    cases arrival with
    | push message => exact charted.coming message member
    | response resp =>
        apply charted.asked resp.ids
        apply (accounted.awaited _).mpr
        left
        apply List.mem_append_left
        apply List.mem_append_left
        apply List.mem_append_right
        exact List.mem_filterMap.mpr ⟨_, member, rfl⟩

/-- The response to every request reaches the call that sent it: in every state of
every run, calls return with the responses to their own requests, no response
is returned twice, the response that a call waits for is to come or is there,
and where nobody waits nothing is left. -/
theorem delivered_throughout (workers : Nat) (events : List Event) :
    Throughout perform Delivered (start workers) events :=
  throughout_of_along (fun _ tracked => tracked.delivered) tracked_step (tracked_start workers)
    (along_trivial perform (start workers) events)

end Machine

end Client
end ProtobufMq
