import ProtobufMq.Server.Delivery

namespace ProtobufMq

open Foundation

/-!
# The order in which messages are handed over

The objects of a store get their addresses one after another, when they are put
into it, so the addresses tell in which order that happened.  A task takes the
message with the smallest one; but taking and calling the callback are
different steps, and while one task has a message in hand another may take the
next one and hand it over first.  Where no task takes a message while another
one has a message of the same store in hand, the order is kept.
-/

/-! ## A message store -/

namespace QueueMessage

/-- The pending messages are in the order in which they were made. -/
structure Lined (queue : QueueMessage) : Prop where
  increasing : (queue.msgs.map MessagePtr.addr).Pairwise (· < ·)
  young : ∀ pointer ∈ queue.msgs, pointer.addr < queue.allocated

/-- A store from which nothing is taken. -/
structure Extends (queue next : QueueMessage) : Prop where
  allocated : queue.allocated ≤ next.allocated
  pending : ∀ pointer ∈ next.msgs, pointer ∈ queue.msgs ∨ queue.allocated ≤ pointer.addr
  lined : queue.Lined → next.Lined

theorem lined_of_empty {queue : QueueMessage} (empty : queue.msgs = []) : queue.Lined := by
  constructor
  · rw [empty]
    exact List.Pairwise.nil
  · rw [empty]
    exact nofun

theorem extends_refl (queue : QueueMessage) : queue.Extends queue :=
  ⟨Nat.le_refl _, fun _ member => Or.inl member, id⟩

theorem Quiet.extends {queue next : QueueMessage} (quiet : queue.Quiet next) :
    queue.Extends next := by
  refine ⟨Nat.le_of_eq quiet.allocated.symm, fun pointer member => ?_, fun lined => ?_⟩
  · rcases quiet.msgs with same | empty
    · exact Or.inl (same ▸ member)
    · rw [empty] at member
      cases member
  · rcases quiet.msgs with same | empty
    · constructor
      · rw [same]
        exact lined.increasing
      · rw [same, quiet.allocated]
        exact lined.young
    · exact lined_of_empty empty

theorem extends_withMessage (queue : QueueMessage) (message : Message) (totalCount : Nat)
    (durableMsgs : Dictionary Bytes MessagePtr) :
    queue.Extends (queue.withMessage message totalCount durableMsgs) := by
  refine ⟨Nat.le_succ _, fun pointer member => ?_, fun lined => ⟨?_, fun pointer member => ?_⟩⟩
  · rcases List.mem_append.mp member with old | new
    · exact Or.inl old
    · cases List.mem_singleton.mp new
      exact Or.inr (Nat.le_refl _)
  · change ((queue.msgs ++ [_]).map MessagePtr.addr).Pairwise (· < ·)
    rw [List.map_append, List.pairwise_append]
    refine ⟨lined.increasing, List.pairwise_singleton _ _, fun address old last new => ?_⟩
    rcases List.mem_map.mp old with ⟨pointer, member, rfl⟩
    cases List.mem_singleton.mp new
    exact lined.young pointer member
  · rcases List.mem_append.mp member with old | new
    · exact Nat.lt_succ_of_lt (lined.young pointer old)
    · cases List.mem_singleton.mp new
      exact Nat.lt_succ_self _

theorem extends_holding (queue : QueueMessage) (messages : List Message) :
    queue.Extends (queue.holding messages) := by
  have followed := queue.follows_holding messages
  refine ⟨followed.allocated, followed.pending, fun _ => ⟨?_, fun pointer member => ?_⟩⟩
  · change ((share queue.allocated messages).map MessagePtr.addr).Pairwise (· < ·)
    rw [share_addresses]
    exact List.pairwise_lt_range'
  · have listed : pointer.addr ∈ (share queue.allocated messages).map MessagePtr.addr :=
      List.mem_map_of_mem member
    rw [share_addresses, List.mem_range'_1] at listed
    exact listed.2

end QueueMessage

namespace MessageManager

variable {manager next : MessageManager} {world after : World}

/-- Stores from which nothing is taken. -/
def Extends (manager next : MessageManager) : Prop :=
  manager.queueMsgs.Evolves QueueMessage.Extends (fun store => store.msgs = []) next.queueMsgs

/-- The pending messages of every store are in the order in which they were made. -/
def Lined (manager : MessageManager) : Prop :=
  ∀ reference store, manager.queueMsgs.object reference = some store → store.Lined

theorem extends_refl (manager : MessageManager) : manager.Extends manager :=
  Registry.evolves_refl QueueMessage.extends_refl _

theorem Quiet.extends (quiet : manager.Quiet next) : manager.Extends next := by
  refine ⟨fun reference store there => ?_, quiet.stores.new⟩
  rcases quiet.stores.kept reference store there with ⟨other, otherThere, grown⟩
  exact ⟨other, otherThere, grown.extends⟩

theorem extends_update {reference : Nat} {store later : QueueMessage}
    (there : manager.queueMsgs.object reference = some store) (grown : store.Extends later) :
    manager.Extends { manager with queueMsgs := manager.queueMsgs.update reference later } :=
  Registry.evolves_update QueueMessage.extends_refl there grown

theorem Lined.extends (lined : manager.Lined) (grown : manager.Extends next) : next.Lined := by
  intro reference later there
  rcases grown.new reference later there with ⟨store, old⟩ | empty
  · rcases grown.kept reference store old with ⟨other, otherThere, extended⟩
    cases otherThere.symm.trans there
    exact extended.lined (lined reference store old)
  · exact QueueMessage.lined_of_empty empty

theorem lined_initQueueMessage [Protobuf] {qname : Bytes} (lined : manager.Lined)
    (completed : manager.initQueueMessage qname world = .ok next after) : next.Lined := by
  rcases bind_eq_ok completed with ⟨⟨found, admitted⟩, middle, entered, rest⟩
  have first : admitted.Lined := lined.extends (quiet_introduce entered).extends
  cases found with
  | none =>
      cases rest
      exact first
  | some reference =>
      rcases recover_stores rest with quiet | ⟨store, messages, there, _, same⟩
      · exact first.extends quiet.extends
      · rw [same]
        exact first.extends (extends_update there (store.extends_holding messages))

end MessageManager

namespace Phase

/-- The message that the task has in hand and has not given to a callback. -/
def unsent : Phase → Option Taken
  | .taken took | .asking took _ | .chosen took _ => some took
  | .ready | .looked _ | .delivered _ _ | .acking _ _ _ | .ended _ => none

/-- The store from which the task is about to take a message. -/
def looking : Phase → Option Nat
  | .looked store => some store
  | _ => none

end Phase

namespace Machine

/-- The messages of a store that were handed over, by their addresses, in the order of
the calls. -/
def handedFrom (machine : Machine) (reference : Nat) : List Nat :=
  (machine.sent.filter fun delivery => delivery.taken.store = reference).map
    fun delivery => delivery.taken.pointer.addr

/-- The messages of every store are handed over in the order in which they were put
into it. -/
def InOrder (machine : Machine) : Prop :=
  ∀ reference, (machine.handedFrom reference).Pairwise (· < ·)

/-- No task has a message of the store in hand. -/
def Untaken (machine : Machine) (reference : Nat) : Prop :=
  ∀ other < machine.server.shared.pool.length, ∀ taken ∈ (machine.phase other).unsent,
    taken.store ≠ reference

/-- The condition on a step: a task takes a message when no task has one of the same
store in hand. -/
def TakesAlone (machine : Machine) (event : Event) : Prop :=
  match event.move with
  | .work index => ∀ reference ∈ (machine.phase index).looking, machine.Untaken reference
  | _ => True

instance (machine : Machine) (reference : Nat) : Decidable (machine.Untaken reference) :=
  inferInstanceAs (Decidable (∀ other < machine.server.shared.pool.length,
    ∀ taken ∈ (machine.phase other).unsent, taken.store ≠ reference))

instance (machine : Machine) : ∀ event, Decidable (machine.TakesAlone event)
  | ⟨.work index, _⟩ => inferInstanceAs (Decidable
      (∀ reference ∈ (machine.phase index).looking, machine.Untaken reference))
  | ⟨.connect _, _⟩ | ⟨.disconnect _, _⟩ | ⟨.packet _ _ _, _⟩ | ⟨.proceed, _⟩ => .isTrue trivial

/-! ## What every interleaving keeps -/

/-- The message is older than those that are pending in its store. -/
def Passed (machine : Machine) (taken : Taken) : Prop :=
  ∃ store, machine.server.shared.host.mmptr.queueMsgs.object taken.store = some store ∧
    taken.pointer.addr < store.allocated ∧
    ∀ pointer ∈ store.msgs, taken.pointer.addr < pointer.addr

/-- The messages of a store, those handed over before the one in hand, and that one
before the pending ones. -/
structure InLine (machine : Machine) : Prop where
  lined : machine.server.shared.host.mmptr.Lined
  inHand : ∀ index taken, (machine.phase index).unsent = some taken → machine.Passed taken
  alone : ∀ first second one two, (machine.phase first).unsent = some one →
    (machine.phase second).unsent = some two → one.store = two.store → first = second
  passed : ∀ delivery ∈ machine.sent, machine.Passed delivery.taken
  before : ∀ delivery ∈ machine.sent, ∀ index taken, (machine.phase index).unsent = some taken →
    taken.store = delivery.taken.store → delivery.taken.pointer.addr < taken.pointer.addr
  order : machine.InOrder

section Keeping

variable [Protobuf] {machine next : Machine} {world after : World}

/-- What a step of the event loop adds to the stores comes after what they had. -/
theorem Supplies.extends (supplies : machine.Supplies world next) :
    machine.server.shared.host.mmptr.Extends next.server.shared.host.mmptr := by
  cases supplies with
  | quiet stores pool => exact stores.extends
  | stored inHand afterwards found there stores pool =>
      rw [stores]
      exact MessageManager.extends_update there (QueueMessage.extends_withMessage _ _ _ _)
  | recovered inHand there length stores pool =>
      rw [stores]
      exact MessageManager.extends_update there (QueueMessage.extends_holding _ _)

omit [Protobuf] in
theorem Passed.extends {taken : Taken} (passed : machine.Passed taken)
    (stores : machine.server.shared.host.mmptr.Extends next.server.shared.host.mmptr) :
    next.Passed taken := by
  rcases passed with ⟨store, there, young, older⟩
  rcases stores.kept taken.store store there with ⟨later, laterThere, grown⟩
  refine ⟨later, laterThere, Nat.lt_of_lt_of_le young grown.allocated, fun pointer member => ?_⟩
  rcases grown.pending pointer member with old | new
  · exact older pointer old
  · exact Nat.lt_of_lt_of_le young new

omit [Protobuf] in
/-- Steps in which nothing is taken and nothing is handed over. -/
theorem InLine.passes (line : machine.InLine)
    (stores : machine.server.shared.host.mmptr.Extends next.server.shared.host.mmptr)
    (unsent : ∀ index taken, (next.phase index).unsent = some taken →
      (machine.phase index).unsent = some taken)
    (sent : next.sent = machine.sent) : next.InLine := by
  refine ⟨line.lined.extends stores, fun index taken hold => ?_,
    fun first second one two firstHolds secondHolds => ?_, fun delivery member => ?_,
    fun delivery member index taken hold => ?_, fun reference => ?_⟩
  · exact (line.inHand index taken (unsent index taken hold)).extends stores
  · exact line.alone first second one two (unsent first one firstHolds)
      (unsent second two secondHolds)
  · rw [sent] at member
    exact (line.passed delivery member).extends stores
  · rw [sent] at member
    exact line.before delivery member index taken (unsent index taken hold)
  · unfold handedFrom
    rw [sent]
    exact line.order reference

omit [Protobuf] in
/-- A task gets a message in hand, the newest of those that have left its store. -/
theorem InLine.holds (line : machine.InLine) (index : Nat) {taken : Taken}
    (passed : machine.Passed taken)
    (alone : ∀ other held, (machine.phase other).unsent = some held → held.store ≠ taken.store)
    (newest : ∀ delivery ∈ machine.sent, taken.store = delivery.taken.store →
      delivery.taken.pointer.addr < taken.pointer.addr) :
    (machine.withPhase index (.taken taken)).InLine := by
  have unsent : ∀ other held,
      ((machine.withPhase index (.taken taken)).phase other).unsent = some held →
      (other = index ∧ held = taken) ∨
        (other ≠ index ∧ (machine.phase other).unsent = some held) := by
    intro other held holds
    by_cases same : other = index
    · rw [same, withPhase_self] at holds
      exact Or.inl ⟨same, (Option.some.inj holds).symm⟩
    · rw [withPhase_other _ _ same] at holds
      exact Or.inr ⟨same, holds⟩
  refine ⟨line.lined, fun other held holds => ?_,
    fun first second one two firstHolds secondHolds same => ?_, line.passed,
    fun delivery member other held holds same => ?_, line.order⟩
  · rcases unsent other held holds with ⟨_, rfl⟩ | ⟨_, old⟩
    · exact passed
    · exact line.inHand other held old
  · rcases unsent first one firstHolds with ⟨firstSame, rfl⟩ | ⟨_, firstOld⟩
    · rcases unsent second two secondHolds with ⟨secondSame, _⟩ | ⟨_, secondOld⟩
      · exact firstSame.trans secondSame.symm
      · exact absurd same.symm (alone second two secondOld)
    · rcases unsent second two secondHolds with ⟨_, rfl⟩ | ⟨_, secondOld⟩
      · exact absurd same (alone first one firstOld)
      · exact line.alone first second one two firstOld secondOld same
  · rcases unsent other held holds with ⟨_, rfl⟩ | ⟨_, old⟩
    · exact newest delivery member same
    · exact line.before delivery member other held old same

omit [Protobuf] in
/-- A task takes the first pending message. -/
theorem InLine.takes (line : machine.InLine) (unborn : machine.Unborn) {index reference : Nat}
    {store : QueueMessage} {pointer : MessagePtr} {rest : List MessagePtr}
    (untaken : machine.Untaken reference)
    (there : machine.server.shared.host.mmptr.queueMsgs.object reference = some store)
    (pending : store.msgs = pointer :: rest) :
    ((machine.withMessages { machine.server.shared.host.mmptr with
      queueMsgs := machine.server.shared.host.mmptr.queueMsgs.update reference { store with
        msgs := rest
        waitackMsgs := Dictionary.insertNew pointer.id pointer store.waitackMsgs } }).withPhase
          index (.taken ⟨reference, pointer⟩)).InLine := by
  let later : QueueMessage := { store with
    msgs := rest
    waitackMsgs := Dictionary.insertNew pointer.id pointer store.waitackMsgs }
  have increasing := (line.lined reference store there).increasing
  have young := (line.lined reference store there).young
  rw [pending, List.map_cons, List.pairwise_cons] at increasing
  have grown : store.Extends later := by
    refine ⟨Nat.le_refl _, fun kept member => Or.inl (pending ▸ List.mem_cons_of_mem _ member),
      fun _ => ⟨increasing.2, fun kept member => ?_⟩⟩
    exact young kept (pending ▸ List.mem_cons_of_mem _ member)
  have stores := MessageManager.extends_update there grown
  have shifted : (machine.withMessages { machine.server.shared.host.mmptr with
      queueMsgs := machine.server.shared.host.mmptr.queueMsgs.update reference later }).InLine :=
    line.passes stores (fun _ _ holds => holds) rfl
  refine shifted.holds index ⟨later, ?_, young pointer (pending ▸ List.mem_cons_self), ?_⟩ ?_ ?_
  · change (machine.server.shared.host.mmptr.queueMsgs.update reference later).object reference = _
    rw [Registry.object_update, if_pos rfl, there]
    rfl
  · exact fun kept member => increasing.1 _ (List.mem_map_of_mem member)
  · intro other held holds
    refine untaken other (Nat.lt_of_not_le fun beyond => ?_) held holds
    change (machine.phase other).unsent = _ at holds
    rw [unborn other beyond] at holds
    cases holds
  · intro delivery member same
    rcases line.passed delivery member with ⟨stored, storedThere, _, older⟩
    rw [← same] at storedThere
    cases there.symm.trans storedThere
    exact older pointer (pending ▸ List.mem_cons_self)

omit [Protobuf] in
/-- A task calls the callback of the consumer that it chose. -/
theorem InLine.delivers (line : machine.InLine) {index : Nat} {taken : Taken} {choice : Choice}
    (chosen : machine.phase index = .chosen taken choice) :
    ({ machine.withPhase index (.delivered taken choice) with
      sent := machine.sent ++ [⟨index, taken, choice⟩] } : Machine).InLine := by
  have holds : (machine.phase index).unsent = some taken := by
    rw [chosen]
    rfl
  have unsent : ∀ other held,
      ((machine.withPhase index (.delivered taken choice)).phase other).unsent = some held →
      other ≠ index ∧ (machine.phase other).unsent = some held := by
    intro other held holdsNow
    by_cases same : other = index
    · rw [same, withPhase_self] at holdsNow
      cases holdsNow
    · rw [withPhase_other _ _ same] at holdsNow
      exact ⟨same, holdsNow⟩
  refine ⟨line.lined, fun other held holdsNow => line.inHand other held (unsent other held holdsNow).2,
    fun first second one two firstHolds secondHolds =>
      line.alone first second one two (unsent first one firstHolds).2
        (unsent second two secondHolds).2,
    fun delivery member => ?_, fun delivery member other held holdsNow same => ?_,
    fun reference => ?_⟩
  · rcases List.mem_append.mp member with old | new
    · exact line.passed delivery old
    · cases List.mem_singleton.mp new
      exact line.inHand index taken holds
  · rcases unsent other held holdsNow with ⟨distinct, old⟩
    rcases List.mem_append.mp member with earlier | new
    · exact line.before delivery earlier other held old same
    · cases List.mem_singleton.mp new
      exact absurd (line.alone other index held taken old holds same) distinct
  · let delivery : Delivery := ⟨index, taken, choice⟩
    change ((machine.sent ++ [delivery]).filter
      (fun made => made.taken.store = reference)).map
        (fun made => made.taken.pointer.addr) |>.Pairwise (· < ·)
    rw [List.filter_append, List.map_append, List.pairwise_append]
    refine ⟨line.order reference, ?_, ?_⟩
    · by_cases own : taken.store = reference
      · rw [List.filter_singleton, decide_eq_true own]
        exact List.pairwise_singleton _ _
      · rw [List.filter_singleton, decide_eq_false own]
        exact List.Pairwise.nil
    · intro earlier earlierMember last lastMember
      rcases List.mem_map.mp earlierMember with ⟨made, among, rfl⟩
      rcases List.mem_map.mp lastMember with ⟨final, finalAmong, rfl⟩
      rcases List.mem_filter.mp among with ⟨member, own⟩
      rcases List.mem_filter.mp finalAmong with ⟨finalMember, finalOwn⟩
      cases List.mem_singleton.mp finalMember
      exact line.before made member index taken holds
        ((of_decide_eq_true finalOwn).trans (of_decide_eq_true own).symm)

/-- A step of a task that takes its message alone. -/
theorem InLine.works (line : machine.InLine) (unborn : machine.Unborn) {index : Nat} {task : Task}
    (alone : ∀ reference ∈ (machine.phase index).looking, machine.Untaken reference)
    (works : machine.Works index task world after next) : next.InLine := by
  have passes : ∀ {shared : Shared} {phase : Phase},
      machine.server.shared.host.mmptr.Quiet shared.host.mmptr →
      (∀ taken, phase.unsent = some taken → (machine.phase index).unsent = some taken) →
      ((machine.withShared shared).withPhase index phase).InLine := by
    intro shared phase quiet still
    refine line.passes quiet.extends (fun other taken holds => ?_) rfl
    by_cases same : other = index
    · rw [same, withPhase_self] at holds
      exact same ▸ still taken holds
    · rw [withPhase_other _ _ same] at holds
      exact holds
  have same := machine.server.shared.host.mmptr.quiet_refl
  cases works with
  | missed ready opened unknown => exact passes same fun _ => nofun
  | looks ready opened found => exact passes same fun _ => nofun
  | findsNothing looked nothing quiet => exact passes quiet fun _ => nofun
  | takes looked there pending => exact line.takes unborn (alone _ (by rw [looked]; rfl)) there pending
  | alone holds opened nobody => exact passes same fun _ => nofun
  | asks holds found => exact passes same fun _ own => by rw [holds]; exact own
  | refused asking nobody =>
      exact @passes { machine.server.shared with cmptr := _ } _ same fun _ => nofun
  | chooses asking somebody =>
      exact @passes { machine.server.shared with cmptr := _ } _ same
        fun _ own => by rw [asking]; exact own
  | delivers chosen opened => exact line.delivers chosen
  | asksAck delivered => exact passes same fun _ => nofun
  | leaves delivered => exact passes same fun _ => nofun
  | acknowledges acking removed =>
      exact @passes { machine.server.shared with
        host := { machine.server.shared.host with mmptr := _ } } _
          (MessageManager.quiet_removeFrom removed) fun _ => nofun
  | rests ended => exact line

/-- A step that meets the condition keeps the line. -/
theorem inLine_step {event : Event} (line : machine.InLine) (unborn : machine.Unborn)
    (alone : machine.TakesAlone event) (stepped : perform machine event = .ok next) :
    next.InLine := by
  rcases perform_cases stepped with ⟨result, after, same, moves |
    ⟨index, task, move, _, completed⟩⟩
  all_goals
    rw [same]
    refine @InLine.passes result _ ?_ (MessageManager.extends_refl _) (fun _ _ holds => holds) rfl
  · refine line.passes moves.supplies.extends (fun index taken holds => ?_) moves.follows.sent
    rwa [moves.follows.phase] at holds
  · refine line.works unborn (fun reference looking => ?_) (consume_works completed)
    unfold TakesAlone at alone
    rw [move] at alone
    exact alone reference looking

/-- A new server has handed nothing over. -/
theorem inLine_new {database : Database} {basedir : Bytes} {world after : World}
    {server : Server} (started : Server.new database basedir world = .ok server after)
    (disk : Disk) : ({ server := server, disk := disk } : Machine).InLine := by
  have lined : server.shared.host.mmptr.Lined := by
    rcases bind_eq_ok started with ⟨host, middle, made, rest⟩
    rcases VirtualHost.new_ok made with ⟨mmptr, initialised, same⟩
    cases rest
    rw [same]
    have empty : ({ basedir := basedir } : MessageManager).Lined := fun _ _ there => (nomatch there)
    exact foldlM_invariant (fun _ _ _ _ _ held filled =>
      MessageManager.lined_initQueueMessage held filled) empty initialised
  exact ⟨lined, fun _ _ => nofun, fun _ _ _ _ => nofun, fun _ => nofun, fun _ => nofun,
    fun _ => List.Pairwise.nil⟩

/-- In every interleaving from the start of a server in which a task takes a message
only when no task has one of the same store in hand, the messages of every store
are handed over in the order in which they were put into it. -/
theorem inOrder_throughout {database : Database} {basedir : Bytes} {world after : World}
    {server : Server} (started : Server.new database basedir world = .ok server after)
    (disk : Disk) {events : List Event}
    (alone : Along perform TakesAlone { server := server, disk := disk } events) :
    Throughout perform InOrder { server := server, disk := disk } events := by
  refine @throughout_of_along _ _ _ _ _ _ (fun machine => machine.InLine ∧ machine.Unborn)
    (fun _ kept => kept.1.order) ?_ _ _ ⟨inLine_new started disk, fun _ _ => rfl⟩ alone
  intro machine event next kept takes stepped
  exact ⟨inLine_step kept.1 kept.2 takes stepped, unborn_step kept.2 stepped⟩

end Keeping

/-! ## Two tasks with messages of one store -/

/-- A client subscribes to the queue. -/
def subscribing : Event :=
  ⟨.packet 0 {} (.request [] (ascii "c") (.basicConsume (ascii "t") (ascii "q") false)), []⟩

/-- Two messages are published; the first task takes its message, and the second one
takes and hands over the other before the first one goes on. -/
def overtaking : List Event :=
  publishing ++ publishing ++ List.replicate 2 ⟨.work 0, []⟩ ++ List.replicate 5 ⟨.work 1, []⟩ ++
    List.replicate 3 ⟨.work 0, []⟩

/-- One task after the other. -/
theorem inOrder_one_by_one :
    Throughout (@perform wireFormat) InOrder fresh
      (binding ++ subscribing :: publishing ++ publishing ++
        List.replicate 6 ⟨.work 0, []⟩ ++ List.replicate 6 ⟨.work 1, []⟩) :=
  @inOrder_throughout wireFormat {} [] ⟨fun _ => none, []⟩ _ _ rfl _ _ (by decide +kernel)

/-- With one consumer registered throughout, the message of the second publish may be
handed over before that of the first. -/
theorem later_message_overtakes :
    ¬ ∀ (machine : Machine) (events : List Event),
      run (@perform wireFormat) fresh (binding ++ [subscribing]) = .ok machine →
      Throughout (@perform wireFormat)
        (fun state => (state.server.shared.cmptr.registered (ascii "q")).length = 1) machine events →
      Throughout (@perform wireFormat) InOrder machine events := by
  intro always
  have result : (do
      let machine ← run (@perform wireFormat) fresh (binding ++ [subscribing])
      let final ← run (@perform wireFormat) machine overtaking
      return (decide (Throughout (@perform wireFormat)
        (fun state => (state.server.shared.cmptr.registered (ascii "q")).length = 1) machine
          overtaking), decide ((final.handedFrom 0).Pairwise (· < ·)))) =
      (.ok (true, false) : Except Fault (Bool × Bool)) := by decide +kernel
  rcases except_bind_eq_ok result with ⟨machine, reached, result⟩
  rcases except_bind_eq_ok result with ⟨final, completed, result⟩
  have flags := Prod.mk.inj (Except.ok.inj result)
  exact of_decide_eq_false flags.2
    ((always machine overtaking reached (of_decide_eq_true flags.1)).last completed 0)

end Machine

end ProtobufMq
