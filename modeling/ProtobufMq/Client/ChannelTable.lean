import ProtobufMq.Client.Responses
import ProtobufMq.Foundation.Registry

namespace ProtobufMq
namespace Client

open Foundation

/-!
# `ChannelManager` of the client: the table of the channels

Application threads create and remove channels while the network thread looks up
the channel of everything that arrives.  `removeChannel` finds the entry with the
lock, keeps the iterator while it waits for the server without it, and erases
the entry with the lock again.  `createChannel` erases its entry by its key, if
the server refuses the channel.

An iterator is a key together with the channel that was found under it.  The
ids come from `UUIDHelper::uuid`, so no entry ever comes back, and an event that
gives out an id for the second time is not a step.  A task of the pool keeps its
channel alive, and the tasks run in any order.  What the callback of a consumer
does with the table is an event of its own.
-/

/-- What ends a thread that uses the table. -/
inductive TableFault where
  /-- `getChannel` reads the end iterator. -/
  | endIterator
  /-- `removeChannel` uses the iterator of an entry that was erased. -/
  | erasedEntry
  deriving DecidableEq, Repr

/-- An iterator into `_channels`. -/
structure Entry where
  cid : Bytes
  channel : Nat
  deriving DecidableEq, Repr

/-- How far a call of `createChannel` or `removeChannel` has come. -/
inductive TableCall where
  /-- `createChannel` waits for the response to its request. -/
  | opening (entry : Entry) (rid : Bytes)
  /-- `createChannel` was refused the channel, and erases it next. -/
  | refused (entry : Entry)
  /-- `removeChannel` has found the entry, and closes the channel next. -/
  | found (entry : Entry)
  /-- `removeChannel` waits for the response to its request. -/
  | closing (entry : Entry) (rid : Bytes)
  /-- `removeChannel` has its response, and erases the entry next. -/
  | closed (entry : Entry)
  | returned
  deriving DecidableEq, Repr

namespace TableCall

/-- The iterator that `removeChannel` keeps. -/
def held : TableCall → Option Entry
  | .found entry | .closing entry _ | .closed entry => some entry
  | .opening _ _ | .refused _ | .returned => none

/-- The entry that the call erases next. -/
def erases : TableCall → Option Entry
  | .refused entry | .closed entry => some entry
  | .opening _ _ | .found _ | .closing _ _ | .returned => none

end TableCall

/-- `ChannelManager`, the calls of its functions and the tasks of the pool, each
with its channel. -/
structure ChannelTable where
  channels : Registry Bytes Channel := .empty
  calls : List TableCall := []
  pool : List (Nat × Task) := []
  issued : List Bytes := []

/-- Who takes the next step. -/
inductive TableEvent where
  /-- `createChannel` enters a channel and asks the server to open it. -/
  | createChannel (cid rid : Bytes)
  /-- `removeChannel` looks for the entry. -/
  | removeChannel (cid : Bytes)
  /-- `removeChannel` asks the server to close the channel. -/
  | close (index : Nat) (rid : Bytes)
  /-- A call has its response. -/
  | wake (index : Nat)
  /-- A call erases its entry. -/
  | erase (index : Nat)
  /-- The network thread receives something. -/
  | arrive (arrival : Arrival)
  /-- A worker runs a task. -/
  | execute (index : Nat)

namespace ChannelTable

/-- The entry is in `_channels`. -/
def Present (table : ChannelTable) (entry : Entry) : Prop :=
  table.channels.find entry.cid = some entry.channel

instance (table : ChannelTable) (entry : Entry) : Decidable (table.Present entry) :=
  inferInstanceAs (Decidable (table.channels.find entry.cid = some entry.channel))

/-- The table after a step of one call. -/
def withCall (table : ChannelTable) (index : Nat) (call : TableCall) : ChannelTable :=
  { table with calls := table.calls.set index call }

/-- The table with another state of a channel. -/
def withChannel (table : ChannelTable) (reference : Nat) (channel : Channel) : ChannelTable :=
  { table with channels := table.channels.update reference channel }

/-- `ChannelManager::getChannel`: a missing channel is logged, and the end
iterator is read all the same. -/
def getChannel (table : ChannelTable) (cid : Bytes) : Except TableFault (Option Nat) :=
  match table.channels.find cid with
  | none => .error .endIterator
  | some reference => .ok (some reference)

/-- `ChannelManager::createChannel`, up to the wait in `openChannel`. -/
def createChannel (table : ChannelTable) (cid rid : Bytes) : ChannelTable :=
  if table.issued.contains cid ∨ table.issued.contains rid ∨ cid = rid then table
  else { table with
    channels := table.channels.register cid { cid := cid }
    calls := table.calls ++ [.opening ⟨cid, table.channels.next⟩ rid]
    issued := cid :: rid :: table.issued }

/-- The first critical section of `ChannelManager::removeChannel`. -/
def removeChannel (table : ChannelTable) (cid : Bytes) : ChannelTable :=
  match table.channels.find cid with
  | none => table
  | some reference => { table with calls := table.calls ++ [.found ⟨cid, reference⟩] }

/-- `it->second->closeChannel()` in `removeChannel`, up to its wait. -/
def close (table : ChannelTable) (index : Nat) (rid : Bytes) : Except TableFault ChannelTable :=
  match table.calls[index]? with
  | some (.found entry) =>
      if table.Present entry then
        if table.issued.contains rid then .ok table
        else .ok { table.withCall index (.closing entry rid) with issued := rid :: table.issued }
      else .error .erasedEntry
  | _ => .ok table

/-- The response that a call waits for, and the channel without it. -/
def answer (table : ChannelTable) (entry : Entry) (rid : Bytes) : Option (Response × Channel) :=
  (table.channels.object entry.channel).bind fun channel => channel.waitBasicResponse rid

/-- A call gets its response.  `createChannel` gives a refused channel up, and
`removeChannel` goes on in any case. -/
def wake (table : ChannelTable) (index : Nat) : ChannelTable :=
  match table.calls[index]? with
  | some (.opening entry rid) =>
      match table.answer entry rid with
      | none => table
      | some (resp, channel) => (table.withChannel entry.channel channel).withCall index
          (if resp.ok then .returned else .refused entry)
  | some (.closing entry rid) =>
      match table.answer entry rid with
      | none => table
      | some (_, channel) => (table.withChannel entry.channel channel).withCall index
          (.closed entry)
  | _ => table

/-- The last critical section of `createChannel`, which erases by the key, and
that of `removeChannel`, which erases by the iterator. -/
def erase (table : ChannelTable) (index : Nat) : Except TableFault ChannelTable :=
  match table.calls[index]? with
  | some (.refused entry) => .ok { table.withCall index .returned with
      channels := table.channels.unregister entry.cid }
  | some (.closed entry) =>
      if table.Present entry then .ok { table.withCall index .returned with
        channels := table.channels.unregister entry.cid }
      else .error .erasedEntry
  | _ => .ok table

/-- `client::basicConsume` and `client::basicCommon`: a null pointer is logged. -/
def arrive (table : ChannelTable) (arrival : Arrival) : Except TableFault ChannelTable :=
  (table.getChannel arrival.cid).map fun cptr =>
    match cptr with
    | none => table
    | some reference => { table with pool := table.pool ++ [(reference, arrival.task)] }

/-- A worker runs a task on its channel. -/
def execute (table : ChannelTable) (index : Nat) : ChannelTable :=
  match table.pool[index]? with
  | none => table
  | some (reference, task) =>
      let rest := { table with pool := table.pool.eraseIdx index }
      match task, table.channels.object reference with
      | .putBasicResponse resp, some channel =>
          rest.withChannel reference (channel.putBasicResponse resp)
      | _, _ => rest

/-- Perform one step. -/
def perform (table : ChannelTable) : TableEvent → Except TableFault ChannelTable
  | .createChannel cid rid => .ok (table.createChannel cid rid)
  | .removeChannel cid => .ok (table.removeChannel cid)
  | .close index rid => table.close index rid
  | .wake index => .ok (table.wake index)
  | .erase index => table.erase index
  | .arrive arrival => table.arrive arrival
  | .execute index => .ok (table.execute index)

/-! ## What a step can do -/

/-- The iterators that calls of `removeChannel` keep. -/
def held (table : ChannelTable) : List Entry :=
  table.calls.filterMap TableCall.held

/-- The iterators that the other calls keep. -/
def heldBeside (table : ChannelTable) (index : Nat) : List Entry :=
  (table.calls.eraseIdx index).filterMap TableCall.held

/-- The entry that the call erases next. -/
def erasing (table : ChannelTable) (index : Nat) : Option Entry :=
  (table.calls[index]?).bind TableCall.erases

section Turns

variable {table next : ChannelTable} {index : Nat} {before after : TableCall}

/-- A step of a call that keeps the iterator it has. -/
theorem held_withCall (there : table.calls[index]? = some before)
    (same : after.held = before.held) : (table.withCall index after).held = table.held := by
  rcases split_at there with ⟨earlier, later, whole, set, _⟩
  rw [held, held, withCall, set, whole, List.filterMap_append, List.filterMap_append,
    List.filterMap_cons, List.filterMap_cons, same]

/-- A step of a call that gives its iterator up. -/
theorem held_withCall_returned (there : table.calls[index]? = some before) :
    (table.withCall index .returned).held = table.heldBeside index := by
  rcases split_at there with ⟨earlier, later, _, set, erased⟩
  rw [held, heldBeside, withCall, set, erased, List.filterMap_append, List.filterMap_append]
  rfl

/-- An iterator is kept by the call or by another one. -/
theorem mem_held_cases (there : table.calls[index]? = some before) {entry : Entry}
    (member : entry ∈ table.held) :
    entry ∈ table.heldBeside index ∨ before.held = some entry := by
  rcases split_at there with ⟨earlier, later, whole, _, erased⟩
  rcases List.mem_filterMap.mp member with ⟨call, listed, keeps⟩
  rw [whole, List.mem_append, List.mem_cons] at listed
  have beside : call ∈ earlier ++ later → entry ∈ table.heldBeside index := fun other =>
    List.mem_filterMap.mpr ⟨call, erased ▸ other, keeps⟩
  rcases listed with first | same | last
  · exact Or.inl (beside (List.mem_append_left _ first))
  · exact Or.inr (same ▸ keeps)
  · exact Or.inl (beside (List.mem_append_right _ last))

/-- No object is lost, and no id is forgotten. -/
structure Grows (table next : ChannelTable) : Prop where
  objects : table.channels.next ≤ next.channels.next
  issued : table.issued ⊆ next.issued

/-- The steps by what they do to the entries and to the iterators. -/
inductive Turn (table next : ChannelTable) : TableEvent → Prop where
  | keeps {event : TableEvent} (grows : Grows table next)
      (finds : ∀ cid, next.channels.find cid = table.channels.find cid)
      (held : next.held = table.held) : Turn table next event
  | enters {cid rid : Bytes} (grows : Grows table next) (fresh : cid ∉ table.issued)
      (issued : cid ∈ next.issued)
      (finds : ∀ other, next.channels.find other =
        if other = cid then some table.channels.next else table.channels.find other)
      (held : next.held = table.held) : Turn table next (.createChannel cid rid)
  | takes {entry : Entry} (grows : Grows table next) (present : table.Present entry)
      (finds : ∀ cid, next.channels.find cid = table.channels.find cid)
      (held : next.held = table.held ++ [entry]) : Turn table next (.removeChannel entry.cid)
  | drops {index : Nat} {entry : Entry} (grows : Grows table next)
      (erasing : table.erasing index = some entry)
      (finds : ∀ cid, next.channels.find cid =
        if cid = entry.cid then none else table.channels.find cid)
      (held : next.held = table.heldBeside index)
      (others : ∀ other ∈ table.held, other ∈ next.held ∨ table.Present other) :
      Turn table next (.erase index)

/-- A step without effect. -/
theorem Turn.still (table : ChannelTable) (event : TableEvent) : Turn table table event :=
  .keeps ⟨Nat.le_refl _, fun _ => id⟩ (fun _ => rfl) rfl

/-- A call gets its response from its channel, and keeps its iterator. -/
theorem answer_turn {entry : Entry} {channel : Channel} (there : table.calls[index]? = some before)
    (same : after.held = before.held) :
    Turn table ((table.withChannel entry.channel channel).withCall index after) (.wake index) := by
  refine .keeps ⟨?_, fun _ => id⟩ (fun _ => rfl)
    (@held_withCall (table.withChannel entry.channel channel) _ _ _ there same)
  exact Nat.le_of_eq (List.length_set ..).symm

theorem wake_turn (table : ChannelTable) (index : Nat) :
    Turn table (table.wake index) (.wake index) := by
  unfold wake
  cases there : table.calls[index]? with
  | none => exact Turn.still table _
  | some call =>
      cases call with
      | opening entry rid =>
          simp only
          cases table.answer entry rid with
          | none => exact Turn.still table _
          | some answered =>
              refine answer_turn there ?_
              cases answered.1.ok <;> rfl
      | closing entry rid =>
          simp only
          cases table.answer entry rid with
          | none => exact Turn.still table _
          | some answered => exact answer_turn there rfl
      | _ => exact Turn.still table _

theorem close_turn {rid : Bytes} (done : table.close index rid = .ok next) :
    Turn table next (.close index rid) := by
  unfold close at done
  cases there : table.calls[index]? with
  | none =>
      rw [there] at done
      cases done
      exact Turn.still table _
  | some call =>
      rw [there] at done
      cases call with
      | found entry =>
          simp only at done
          by_cases present : table.Present entry
          · rw [if_pos present] at done
            by_cases old : table.issued.contains rid
            · rw [if_pos old] at done
              cases done
              exact Turn.still table _
            · rw [if_neg old] at done
              cases done
              exact .keeps ⟨Nat.le_refl _, List.subset_cons_self ..⟩ (fun _ => rfl)
                (held_withCall there rfl)
          · rw [if_neg present] at done
            cases done
      | _ =>
          cases done
          exact Turn.still table _

/-- A call that erases an entry of the table, and is done. -/
theorem drop_turn {entry : Entry} (there : table.calls[index]? = some before)
    (erases : before.erases = some entry)
    (present : ∀ other, before.held = some other → table.Present other) :
    Turn table { table.withCall index .returned with
      channels := table.channels.unregister entry.cid } (.erase index) := by
  have listed : table.erasing index = some entry := by
    rw [erasing, there]
    exact erases
  have leaves := held_withCall_returned there
  refine .drops ⟨Nat.le_refl _, fun _ => id⟩ listed (fun cid => Registry.find_unregister ..)
    leaves fun other member => ?_
  rcases mem_held_cases there member with beside | own
  · exact Or.inl (leaves.symm ▸ beside)
  · exact Or.inr (present other own)

theorem erase_turn (done : table.erase index = .ok next) : Turn table next (.erase index) := by
  unfold erase at done
  cases there : table.calls[index]? with
  | none =>
      rw [there] at done
      cases done
      exact Turn.still table _
  | some call =>
      rw [there] at done
      cases call with
      | refused entry =>
          cases done
          exact drop_turn there rfl fun other keeps => (nomatch keeps)
      | closed entry =>
          simp only at done
          by_cases present : table.Present entry
          · rw [if_pos present] at done
            cases done
            refine drop_turn there rfl fun other keeps => ?_
            cases keeps
            exact present
          · rw [if_neg present] at done
            cases done
      | _ =>
          cases done
          exact Turn.still table _

/-- A call that has an entry to erase erases it. -/
theorem erase_drops {entry : Entry} (done : table.erase index = .ok next)
    (erases : table.erasing index = some entry) :
    next.channels = table.channels.unregister entry.cid ∧ next.held = table.heldBeside index := by
  rcases Option.bind_eq_some_iff.mp erases with ⟨call, there, same⟩
  unfold erase at done
  rw [there] at done
  cases call with
  | refused other =>
      cases same
      cases done
      exact ⟨rfl, held_withCall_returned there⟩
  | closed other =>
      cases same
      simp only at done
      by_cases present : table.Present entry
      · rw [if_pos present] at done
        cases done
        exact ⟨rfl, held_withCall_returned there⟩
      · rw [if_neg present] at done
        cases done
  | _ => cases same

theorem createChannel_turn (table : ChannelTable) (cid rid : Bytes) :
    Turn table (table.createChannel cid rid) (.createChannel cid rid) := by
  unfold createChannel
  by_cases old : table.issued.contains cid ∨ table.issued.contains rid ∨ cid = rid
  · rw [if_pos old]
    exact Turn.still table _
  · rw [if_neg old]
    refine .enters ⟨?_, fun id member => List.mem_cons_of_mem _ (List.mem_cons_of_mem _ member)⟩
      (fun issued => old (Or.inl (List.contains_iff_mem.mpr issued))) List.mem_cons_self
      (fun other => Registry.find_register ..) ?_
    · change table.channels.objects.length ≤ (table.channels.objects ++ [_]).length
      rw [List.length_append]
      exact Nat.le_add_right _ _
    · rw [held, List.filterMap_append]
      exact List.append_nil _

theorem removeChannel_turn (table : ChannelTable) (cid : Bytes) :
    Turn table (table.removeChannel cid) (.removeChannel cid) := by
  unfold removeChannel
  cases found : table.channels.find cid with
  | none => exact Turn.still table _
  | some reference =>
      exact @Turn.takes table _ ⟨cid, reference⟩ ⟨Nat.le_refl _, fun _ => id⟩ found (fun _ => rfl)
        List.filterMap_append

theorem execute_turn (table : ChannelTable) (index : Nat) :
    Turn table (table.execute index) (.execute index) := by
  unfold execute
  cases table.pool[index]? with
  | none => exact Turn.still table _
  | some item =>
      rcases item with ⟨reference, task⟩
      cases task with
      | consume push => exact .keeps ⟨Nat.le_refl _, fun _ => id⟩ (fun _ => rfl) rfl
      | putBasicResponse resp =>
          simp only
          cases table.channels.object reference with
          | none => exact .keeps ⟨Nat.le_refl _, fun _ => id⟩ (fun _ => rfl) rfl
          | some channel =>
              exact .keeps ⟨Nat.le_of_eq (List.length_set ..).symm, fun _ => id⟩ (fun _ => rfl) rfl

/-- What arrives for a channel of the table becomes a task. -/
theorem arrive_eq_ok {arrival : Arrival} (done : table.arrive arrival = .ok next) :
    ∃ reference, table.channels.find arrival.cid = some reference ∧
      next = { table with pool := table.pool ++ [(reference, arrival.task)] } := by
  rcases except_map_eq_ok done with ⟨cptr, got, same⟩
  unfold getChannel at got
  cases found : table.channels.find arrival.cid with
  | none =>
      rw [found] at got
      cases got
  | some reference =>
      rw [found] at got
      cases got
      exact ⟨reference, rfl, same.symm⟩

theorem perform_turn {event : TableEvent} (stepped : table.perform event = .ok next) :
    Turn table next event := by
  cases event with
  | createChannel cid rid =>
      cases stepped
      exact createChannel_turn table cid rid
  | removeChannel cid =>
      cases stepped
      exact removeChannel_turn table cid
  | close index rid => exact close_turn stepped
  | wake index =>
      cases stepped
      exact wake_turn table index
  | erase index => exact erase_turn stepped
  | arrive arrival =>
      rcases arrive_eq_ok stepped with ⟨reference, _, rfl⟩
      exact .keeps ⟨Nat.le_refl _, fun _ => id⟩ (fun _ => rfl) rfl
  | execute index =>
      cases stepped
      exact execute_turn table index

end Turns

/-! ## Safe use of the table -/

/-- The table is used safely.  `getChannel` answers for an absent channel with a
null pointer, and `removeChannel` uses its iterator, and erases by it, while the
entry is in the table. -/
def TableSafe (table : ChannelTable) : TableEvent → Prop
  | .arrive arrival => table.channels.find arrival.cid = none →
      table.getChannel arrival.cid = .ok none
  | .close index _ => ∀ entry, table.calls[index]? = some (.found entry) → table.Present entry
  | .erase index => ∀ entry, table.calls[index]? = some (.closed entry) → table.Present entry
  | _ => True

/-- What arrives is for a channel of the table, and an entry is erased only while
no other call of `removeChannel` keeps an iterator to it. -/
def Cautious (table : ChannelTable) : TableEvent → Prop
  | .arrive arrival => table.channels.find arrival.cid ≠ none
  | .erase index => ∀ entry ∈ table.erasing index, ∀ other ∈ table.heldBeside index,
      other.cid ≠ entry.cid
  | _ => True

instance (table : ChannelTable) : (event : TableEvent) → Decidable (table.Cautious event)
  | .arrive arrival => inferInstanceAs (Decidable (table.channels.find arrival.cid ≠ none))
  | .erase index => inferInstanceAs (Decidable (∀ entry ∈ table.erasing index,
      ∀ other ∈ table.heldBeside index, other.cid ≠ entry.cid))
  | .createChannel _ _ | .removeChannel _ | .close _ _ | .wake _ | .execute _ => .isTrue trivial

/-- Every iterator that is kept is one to an entry of the table. -/
structure Sound (table : ChannelTable) : Prop where
  issued : ∀ cid reference, table.channels.find cid = some reference → cid ∈ table.issued
  present : ∀ entry ∈ table.held, table.Present entry

section Safety

variable {table next : ChannelTable}

theorem sound_new : Sound {} :=
  ⟨fun _ _ found => (nomatch found), fun _ member => (nomatch member)⟩

theorem held_of_beside {index : Nat} {entry : Entry} (member : entry ∈ table.heldBeside index) :
    entry ∈ table.held := by
  rcases List.mem_filterMap.mp member with ⟨call, listed, keeps⟩
  exact List.mem_filterMap.mpr ⟨call, List.mem_of_mem_eraseIdx listed, keeps⟩

/-- A cautious step leaves every iterator with its entry. -/
theorem sound_step {event : TableEvent} (sound : table.Sound) (cautious : table.Cautious event)
    (stepped : table.perform event = .ok next) : next.Sound := by
  cases perform_turn stepped with
  | keeps grows finds held =>
      refine ⟨fun cid reference found => ?_, fun entry member => ?_⟩
      · exact grows.issued (sound.issued cid reference ((finds cid).symm.trans found))
      · exact (finds _).trans (sound.present entry (held ▸ member))
  | @enters cid rid grows fresh issued finds held =>
      refine ⟨fun other reference found => ?_, fun entry member => ?_⟩
      · rw [finds] at found
        by_cases same : other = cid
        · exact same.symm ▸ issued
        · rw [if_neg same] at found
          exact grows.issued (sound.issued other reference found)
      · have present := sound.present entry (held ▸ member)
        have distinct : entry.cid ≠ cid := fun same =>
          fresh (same ▸ sound.issued entry.cid entry.channel present)
        exact (finds _).trans ((if_neg distinct).trans present)
  | @takes entry grows present finds held =>
      refine ⟨fun cid reference found => ?_, fun other member => ?_⟩
      · exact grows.issued (sound.issued cid reference ((finds cid).symm.trans found))
      · rw [held, List.mem_append, List.mem_singleton] at member
        rcases member with old | same
        · exact (finds _).trans (sound.present other old)
        · exact (finds _).trans (same ▸ present)
  | @drops index entry grows erasing finds held others =>
      refine ⟨fun cid reference found => ?_, fun other member => ?_⟩
      · rw [finds] at found
        by_cases same : cid = entry.cid
        · rw [if_pos same] at found
          cases found
        · rw [if_neg same] at found
          exact grows.issued (sound.issued cid reference found)
      · rw [held] at member
        -- the call keeps its iterator, so the entry that is erased is another one
        have distinct := cautious entry erasing other member
        exact (finds _).trans
          ((if_neg distinct).trans (sound.present other (held_of_beside member)))

/-- Where every iterator has its entry, a cautious step uses the table safely. -/
theorem Sound.tableSafe {event : TableEvent} (sound : table.Sound)
    (cautious : table.Cautious event) : table.TableSafe event := by
  cases event with
  | arrive arrival => exact fun absent => absurd absent cautious
  | close index rid =>
      intro entry there
      exact sound.present entry
        (List.mem_filterMap.mpr ⟨_, List.mem_of_getElem? there, rfl⟩)
  | erase index =>
      intro entry there
      exact sound.present entry
        (List.mem_filterMap.mpr ⟨_, List.mem_of_getElem? there, rfl⟩)
  | _ => trivial

/-- Some call of `removeChannel` keeps an iterator whose entry is gone for good. -/
def Dangling (table : ChannelTable) : Prop :=
  ∃ entry ∈ table.held, ¬ table.Present entry ∧ entry.channel < table.channels.next

/-- An iterator without its entry is never put right: the call that keeps it can
only stop the client. -/
theorem Dangling.step {event : TableEvent} (dangling : table.Dangling)
    (stepped : table.perform event = .ok next) : next.Dangling := by
  rcases dangling with ⟨entry, member, gone, old⟩
  cases perform_turn stepped with
  | keeps grows finds held =>
      refine ⟨entry, held.symm ▸ member, fun present => ?_, Nat.lt_of_lt_of_le old grows.objects⟩
      exact gone ((finds _).symm.trans present)
  | @enters cid rid grows fresh issued finds held =>
      refine ⟨entry, held.symm ▸ member, fun present => ?_, Nat.lt_of_lt_of_le old grows.objects⟩
      have found := (finds _).symm.trans present
      by_cases same : entry.cid = cid
      · rw [if_pos same] at found
        exact absurd (Option.some.inj found) (Nat.ne_of_gt old)
      · rw [if_neg same] at found
        exact gone found
  | takes grows present finds held =>
      refine ⟨entry, held.symm ▸ List.mem_append_left _ member, fun present => ?_,
        Nat.lt_of_lt_of_le old grows.objects⟩
      exact gone ((finds _).symm.trans present)
  | @drops index erased grows erasing finds held others =>
      rcases others entry member with kept | present
      · refine ⟨entry, kept, fun present => ?_, Nat.lt_of_lt_of_le old grows.objects⟩
        have found := (finds _).symm.trans present
        by_cases same : entry.cid = erased.cid
        · rw [if_pos same] at found
          cases found
        · rw [if_neg same] at found
          exact gone found
      · exact absurd present gone

/-- A step that is not cautious stops the client or leaves an iterator without its
entry. -/
theorem cautious_of_step {event : TableEvent} (sound : table.Sound)
    (stepped : table.perform event = .ok next) (kept : ¬ next.Dangling) :
    table.Cautious event := by
  cases event with
  | arrive arrival =>
      rcases arrive_eq_ok stepped with ⟨reference, found, _⟩
      intro absent
      cases absent.symm.trans found
  | erase index =>
      intro entry erasing other member same
      rcases erase_drops stepped erasing with ⟨channels, held⟩
      have present := sound.present other (held_of_beside member)
      refine kept ⟨other, held.symm ▸ member, ?_, ?_⟩
      · unfold Present
        rw [channels, Registry.find_unregister, if_pos same]
        exact nofun
      · rw [channels]
        exact table.channels.bound other.cid other.channel present
  | _ => trivial

/-- A client that was never stopped, and in which no removal is under way in the
end, has been cautious at every step. -/
theorem cautious_along {events : List TableEvent} {final : ChannelTable}
    (completes : run perform {} events = .ok final)
    (finished : final.held = []) : Along perform Cautious {} events := by
  have everywhere := @throughout_of_last _ _ _ perform (fun table => ¬ table.Dangling)
    (fun _ _ _ stepped kept dangling => kept (dangling.step stepped)) _ _ _ completes
    (fun ⟨entry, member, _⟩ => (nomatch finished ▸ member))
  exact along_of_throughout (fun _ _ _ sound meets stepped => sound_step sound meets stepped)
    (fun _ _ _ sound stepped kept => cautious_of_step sound stepped kept) sound_new completes
    everywhere

end Safety

/-! ## Removals in time, and removals that are not -/

/-- A channel is created, and the server opens it. -/
def opened : List TableEvent :=
  [.createChannel (ascii "c") (ascii "1"), .arrive (.response ⟨ascii "1", ascii "c", true⟩),
    .execute 0, .wake 0]

/-- A call of `removeChannel` has found the entry and asks for the channel to be
closed; the server does so, and the response is there. -/
def closed (index : Nat) (rid : Bytes) : List TableEvent :=
  [.close index rid, .arrive (.response ⟨rid, ascii "c", true⟩), .execute 0, .wake index]

/-- A message that is pushed to the channel. -/
def late : Arrival :=
  .push { cid := ascii "c", consumerTag := ascii "t", body := [] }

/-- In every interleaving of creations, removals and arrivals whose steps are
cautious, the table is used safely. -/
theorem tableSafe_along {events : List TableEvent} (cautious : Along perform Cautious {} events) :
    Along perform TableSafe {} events :=
  along_of_along (fun _ _ sound meets => sound.tableSafe meets)
    (fun _ _ _ sound meets stepped => sound_step sound meets stepped) sound_new cautious

/-- One removal, with a message that comes before the entry is erased. -/
theorem removed_once_safe :
    Along perform TableSafe {} (opened ++ [.removeChannel (ascii "c")] ++ closed 1 (ascii "2") ++
      [.arrive late, .erase 1, .removeChannel (ascii "c")]) :=
  tableSafe_along (by decide +kernel)

/-- A message that comes after the entry is erased makes `getChannel` read the end
iterator, and the second of two removals erases an entry that is gone. -/
theorem removed_channel_unsafe :
    (¬ Along perform TableSafe {} (opened ++ [.removeChannel (ascii "c")] ++
      closed 1 (ascii "2") ++ [.erase 1] ++ [.arrive late])) ∧
    ¬ Along perform TableSafe {} (opened ++ [.removeChannel (ascii "c"),
      .removeChannel (ascii "c")] ++ closed 1 (ascii "2") ++ closed 2 (ascii "3") ++ [.erase 1] ++
        [.erase 2]) := by
  constructor
  · intro safe
    have answered := safe.last rfl rfl
    cases answered
  · intro safe
    have present := safe.last rfl ⟨ascii "c", 0⟩ rfl
    cases present

end ChannelTable

end Client
end ProtobufMq
