import Mathlib.Tactic.Abel
import ProtobufMq.Server.Addressing
import ProtobufMq.Server.Conformance
import ProtobufMq.Server.Lifetime

namespace ProtobufMq

open Foundation

/-!
# The books of the server

Every message that a publish is going to store, and every one that a store was
filled with, is a parcel.  A parcel is then in one of four places: the publish in
hand still has to store it; it waits in a store; a task took it and has not given
it to a callback, and maybe never will; or it was handed to a consumer.  It leaves
these places only when its store refuses it, or is emptied because its queue is
deleted.  No step makes a parcel, doubles it, or puts it into another queue.
-/

/-- The parcel that a publication is for a queue, if the queue is there. -/
def VirtualHost.parcelFor (host : VirtualHost) (publication : Channel.Publication)
    (qname : Bytes) : Multiset Parcel :=
  match host.qmptr.selectQueue qname with
  | none => 0
  | some queue => {⟨MessageMapper.ofNames qname host.mmptr.basedir,
      QueueMessage.composed publication.properties (publication.uuid qname) queue.durable,
      publication.body⟩}

/-- The parcels that the request in hand is still going to store. -/
def Loop.parcels (host : VirtualHost) : Loop → Multiset Parcel
  | .publishing _ publication rest | .pushing _ publication _ rest =>
      ((rest.filter fun mqb => publication.selects mqb.2).map fun mqb =>
        host.parcelFor publication mqb.1).sum
  | _ => 0

/-- What is owed depends on the queues and on where their files are. -/
theorem Loop.parcels_congr {host next : VirtualHost} {loop : Loop} (queues : next.qmptr = host.qmptr)
    (basedir : next.mmptr.basedir = host.mmptr.basedir) : loop.parcels next = loop.parcels host := by
  cases loop <;> simp only [Loop.parcels, VirtualHost.parcelFor, queues, basedir]

/-- The message that a task has taken and not given to a callback. -/
def Phase.withheld : Phase → Option Taken
  | .taken took | .asking took _ | .chosen took _ | .ended (some (took, none)) => some took
  | .ready | .looked _ | .delivered _ _ | .acking _ _ _ | .ended none
  | .ended (some (_, some _)) => none

namespace Machine

/-- What a task that is in some phase has in hand for its queue. -/
def hand (basedir : Bytes) (phase : Nat → Phase) (index : Nat) (task : Task) : Multiset Parcel :=
  match (phase index).withheld with
  | none => 0
  | some taken => {taken.pointer.parcel (MessageMapper.ofNames task.queueName basedir)}

section Places

variable (machine : Machine)

/-- The parcels that were handed over, each to a consumer of its queue. -/
def handedParcels : Multiset Parcel :=
  machine.sent.map fun delivery => delivery.taken.pointer.parcel
    (MessageMapper.ofNames delivery.choice.consumer.qname
      machine.server.shared.host.mmptr.basedir)

def withheldParcels : Multiset Parcel :=
  inHands (hand machine.server.shared.host.mmptr.basedir machine.phase) machine.server.shared.pool

def storedParcels : Multiset Parcel :=
  machine.server.shared.host.mmptr.parcels

def owedParcels : Multiset Parcel :=
  machine.loop.parcels machine.server.shared.host

/-- All parcels. -/
def parcels : Multiset Parcel :=
  machine.handedParcels + machine.withheldParcels + machine.storedParcels + machine.owedParcels

end Places

/-- The parcel that is refused in a step, because the queue has no store. -/
def refused (machine : Machine) (event : Event) : Multiset Parcel :=
  match event.move, machine.loop with
  | .proceed, .publishing _ publication (mqb :: _) =>
      if publication.selects mqb.2 then
        match machine.server.shared.host.basicPublish mqb.1 publication.properties
            (publication.uuid mqb.1) publication.body ⟨machine.disk, event.script⟩ with
        | .ok (true, _) _ => 0
        | _ => machine.server.shared.host.parcelFor publication mqb.1
      else 0
  | _, _ => 0

/-- The parcels that are thrown away in a step, with their queue. -/
def discarded (machine : Machine) (event : Event) : Multiset Parcel :=
  match event.move, machine.loop with
  | .proceed, .clearing store _ _ => machine.server.shared.host.mmptr.parcelsIn store
  | _, _ => 0

/-- The parcels that come in with a step: those that a publish which is taken up is
going to store, and those that a new store is filled with. -/
def received [Protobuf] (machine : Machine) (event : Event) : Multiset Parcel :=
  match perform machine event with
  | .error _ => 0
  | .ok next =>
      match event.move, machine.loop with
      | .packet _ _ _, .idle => next.owedParcels
      | .proceed, .recovering store _ _ => next.server.shared.host.mmptr.parcelsIn store
      | _, _ => 0

/-- Whether a parcel is in a store or in a hand, it is one of them all. -/
private theorem held_instead (handed withheld stored owed parcel : Multiset Parcel) :
    handed + (withheld + parcel) + stored + owed = handed + withheld + (stored + parcel) + owed := by
  abel

/-- A parcel that was owed is stored. -/
private theorem stored_instead (handed withheld stored owed parcel : Multiset Parcel) :
    handed + withheld + (stored + parcel) + owed = handed + withheld + stored + (owed + parcel) := by
  abel

/-! ## Steps of a task -/

section Tasks

variable [Protobuf] {machine next : Machine} {world after : World}

omit [Protobuf] in
/-- A step of a task changes what this task has in hand. -/
theorem withheldParcels_withPhase {index : Nat} {task : Task} {phase : Phase}
    (listed : machine.server.shared.pool[index]? = some task)
    (pool : next.server.shared.pool = machine.server.shared.pool)
    (basedir : next.server.shared.host.mmptr.basedir = machine.server.shared.host.mmptr.basedir)
    (phases : next.phase = machine.phase) :
    (next.withPhase index phase).withheldParcels +
        hand machine.server.shared.host.mmptr.basedir machine.phase index task =
      machine.withheldParcels +
        hand machine.server.shared.host.mmptr.basedir (fun _ => phase) index task := by
  have unfolded : (next.withPhase index phase).withheldParcels =
      inHands (hand machine.server.shared.host.mmptr.basedir
        (Function.update machine.phase index phase)) machine.server.shared.pool := by
    rw [← phases, ← pool, ← basedir]
    rfl
  have here : hand machine.server.shared.host.mmptr.basedir (fun _ => phase) index task =
      hand machine.server.shared.host.mmptr.basedir
        (Function.update machine.phase index phase) index task := by
    rw [hand, hand, Function.update_self]
  rw [unfolded, here]
  refine inHands_update listed fun place distinct => ?_
  funext other
  rw [hand, hand, Function.update_of_ne distinct]

omit [Protobuf] in
/-- A step of a task that leaves it with the same parcel in hand, or without one. -/
theorem parcels_turn {index : Nat} {task : Task} {phase : Phase}
    (listed : machine.server.shared.pool[index]? = some task)
    (pool : next.server.shared.pool = machine.server.shared.pool)
    (messages : next.server.shared.host.mmptr.parcels = machine.server.shared.host.mmptr.parcels)
    (basedir : next.server.shared.host.mmptr.basedir = machine.server.shared.host.mmptr.basedir)
    (queues : next.server.shared.host.qmptr = machine.server.shared.host.qmptr)
    (loop : next.loop = machine.loop) (sent : next.sent = machine.sent)
    (phases : next.phase = machine.phase)
    (same : phase.withheld = (machine.phase index).withheld) :
    (next.withPhase index phase).parcels = machine.parcels := by
  have balance := @withheldParcels_withPhase machine next index task phase listed pool basedir phases
  have hands : hand machine.server.shared.host.mmptr.basedir (fun _ => phase) index task =
      hand machine.server.shared.host.mmptr.basedir machine.phase index task := by
    rw [hand, hand, same]
  rw [hands] at balance
  have handed : (next.withPhase index phase).handedParcels = machine.handedParcels := by
    rw [handedParcels, handedParcels, ← sent, ← basedir]
    rfl
  have owed : (next.withPhase index phase).owedParcels = machine.owedParcels := by
    change next.loop.parcels next.server.shared.host =
      machine.loop.parcels machine.server.shared.host
    rw [loop, Loop.parcels_congr queues basedir]
  have stored : (next.withPhase index phase).storedParcels = machine.storedParcels := messages
  rw [parcels, parcels, handed, owed, stored, add_right_cancel balance]

/-- A task takes no parcel from elsewhere, and hands its parcel to a consumer of its
queue. -/
theorem Works.parcels (addressed : machine.Addressed) {index : Nat} {task : Task}
    (listed : machine.server.shared.pool[index]? = some task)
    (works : machine.Works index task world after next) : next.parcels = machine.parcels := by
  have directed := addressed.directed index task listed
  cases works with
  | missed ready opened unknown =>
      exact parcels_turn listed rfl rfl rfl rfl rfl rfl rfl (by rw [ready]; rfl)
  | looks ready opened found =>
      exact parcels_turn listed rfl rfl rfl rfl rfl rfl rfl (by rw [ready]; rfl)
  | findsNothing looked nothing quiet =>
      rw [MessageManager.frontOf_of_empty nothing]
      exact parcels_turn listed rfl rfl rfl rfl rfl rfl rfl (by rw [looked]; rfl)
  | @takes reference store pointer rest looked there pending =>
      rw [looked] at directed
      rcases directed with ⟨other, otherThere, mapper⟩
      cases there.symm.trans otherThere
      let later : QueueMessage := { store with
        msgs := rest, waitackMsgs := Dictionary.insertNew pointer.id pointer store.waitackMsgs }
      have balance := @withheldParcels_withPhase machine
        (machine.withMessages { machine.server.shared.host.mmptr with
          queueMsgs := machine.server.shared.host.mmptr.queueMsgs.update reference later })
        index task (.taken ⟨reference, pointer⟩) listed rfl rfl rfl
      have before : hand machine.server.shared.host.mmptr.basedir machine.phase index task = 0 := by
        rw [hand, looked]
        rfl
      have taken : store.parcels = later.parcels + {pointer.parcel
          (MessageMapper.ofNames task.queueName machine.server.shared.host.mmptr.basedir)} := by
        rw [QueueMessage.parcels, pending, List.map_cons, ← Multiset.cons_coe,
          ← Multiset.singleton_add, mapper, add_comm]
        exact congrArg (· + _) (by rw [QueueMessage.parcels, mapper])
      have stored := @MessageManager.parcels_update machine.server.shared.host.mmptr reference store
        later there
      rw [before, add_zero] at balance
      rw [taken, add_comm later.parcels, ← add_assoc] at stored
      -- what the task has more the store has less
      have given : machine.storedParcels = MessageManager.parcels { machine.server.shared.host.mmptr
          with queueMsgs := machine.server.shared.host.mmptr.queueMsgs.update reference later } +
          {pointer.parcel (MessageMapper.ofNames task.queueName
            machine.server.shared.host.mmptr.basedir)} := (add_right_cancel stored).symm
      change machine.handedParcels + _ + _ + machine.owedParcels = _
      rw [balance, Machine.parcels, given]
      exact held_instead ..
  | alone holds opened nobody =>
      exact parcels_turn listed rfl rfl rfl rfl rfl rfl rfl (by rw [holds]; rfl)
  | asks holds found =>
      exact parcels_turn listed rfl rfl rfl rfl rfl rfl rfl (by rw [holds]; rfl)
  | refused asking nobody =>
      exact parcels_turn listed rfl rfl rfl rfl rfl rfl rfl (by rw [asking]; rfl)
  | chooses asking somebody =>
      exact parcels_turn listed rfl rfl rfl rfl rfl rfl rfl (by rw [asking]; rfl)
  | @delivers taken choice chosen opened =>
      rw [chosen] at directed
      have balance := @withheldParcels_withPhase machine machine index task (.delivered taken choice)
        listed rfl rfl rfl
      have before : hand machine.server.shared.host.mmptr.basedir machine.phase index task =
          {taken.pointer.parcel (MessageMapper.ofNames choice.consumer.qname
            machine.server.shared.host.mmptr.basedir)} := by
        rw [hand, chosen, directed]
        rfl
      rw [before] at balance
      change Multiset.ofList ((machine.sent ++ [_]).map _) + _ + _ + machine.owedParcels = _
      rw [List.map_append, ← Multiset.coe_add, Machine.parcels, ← add_zero machine.withheldParcels]
      refine congrArg (· + machine.storedParcels + machine.owedParcels) ?_
      exact (add_assoc ..).trans (congrArg (machine.handedParcels + ·)
        ((add_comm ..).trans balance))
  | asksAck delivered =>
      exact parcels_turn listed rfl rfl rfl rfl rfl rfl rfl (by rw [delivered]; rfl)
  | leaves delivered =>
      exact parcels_turn listed rfl rfl rfl rfl rfl rfl rfl (by rw [delivered]; rfl)
  | acknowledges acking removed =>
      exact parcels_turn listed rfl (MessageManager.parcels_removeFrom removed)
        (MessageManager.follows_removeFrom removed).basedir rfl rfl rfl rfl (by rw [acking]; rfl)
  | rests ended => rfl

end Tasks

/-! ## Steps of the event loop -/

/-- The store that is going to be filled is empty, and has the files of the queue that
is declared. -/
def Prepared (machine : Machine) : Prop :=
  ∀ reference sql queue, machine.loop = .recovering reference sql queue →
    ∃ store, machine.server.shared.host.mmptr.queueMsgs.object reference = some store ∧
      store.msgs = [] ∧ store.mapper =
        MessageMapper.ofNames queue.name machine.server.shared.host.mmptr.basedir

section Moving

variable {machine next : Machine}

theorem prepared_of_loop (other : ∀ reference sql queue, next.loop ≠ .recovering reference sql queue) :
    next.Prepared :=
  fun reference sql queue recovering => absurd recovering (other reference sql queue)

theorem Prepared.parcelsIn (prepared : machine.Prepared) {reference : Nat} {sql : SqlOutcome}
    {queue : MsgQueue} (recovering : machine.loop = .recovering reference sql queue) :
    machine.server.shared.host.mmptr.parcelsIn reference = 0 := by
  rcases prepared reference sql queue recovering with ⟨store, there, empty, _⟩
  rw [MessageManager.parcelsIn, Registry.part_of_object there, QueueMessage.parcels_of_empty empty]

/-- Steps in which no task moves, and none is pushed. -/
theorem withheldParcels_same (phases : next.phase = machine.phase)
    (pool : next.server.shared.pool = machine.server.shared.pool)
    (basedir : next.server.shared.host.mmptr.basedir = machine.server.shared.host.mmptr.basedir) :
    next.withheldParcels = machine.withheldParcels := by
  rw [withheldParcels, withheldParcels, phases, pool, basedir]

/-- A task that is pushed has nothing in hand. -/
theorem withheldParcels_push (unborn : machine.Unborn) {task : Task}
    (phases : next.phase = machine.phase)
    (pool : next.server.shared.pool = machine.server.shared.pool ++ [task])
    (basedir : next.server.shared.host.mmptr.basedir = machine.server.shared.host.mmptr.basedir) :
    next.withheldParcels = machine.withheldParcels := by
  rw [withheldParcels, withheldParcels, phases, pool, basedir, inHands_concat]
  have nothing : hand machine.server.shared.host.mmptr.basedir machine.phase
      machine.server.shared.pool.length task = 0 := by
    rw [hand, unborn _ (Nat.le_refl _)]
    rfl
  rw [nothing, add_zero]

theorem handedParcels_same (sent : next.sent = machine.sent)
    (basedir : next.server.shared.host.mmptr.basedir = machine.server.shared.host.mmptr.basedir) :
    next.handedParcels = machine.handedParcels := by
  rw [handedParcels, handedParcels, sent, basedir]

/-- A turn of a publish stores the parcel of its binding, if the router accepts it. -/
theorem parcels_publishing (host : VirtualHost) (address : Nat) (publication : Channel.Publication)
    (mqb : Bytes × Binding) (rest : List (Bytes × Binding)) :
    (Loop.publishing address publication (mqb :: rest)).parcels host =
      (Loop.publishing address publication rest).parcels host +
        if publication.selects mqb.2 then host.parcelFor publication mqb.1 else 0 := by
  rw [Loop.parcels, Loop.parcels, List.filter_cons]
  by_cases selected : publication.selects mqb.2 = true
  · rw [if_pos selected, if_pos selected, List.map_cons, List.sum_cons, add_comm]
  · rw [if_neg selected, if_neg selected, add_zero]

/-- The parcel that a turn of a publish had to store is stored or refused. -/
theorem parcels_inserts {address : Nat} {publication : Channel.Publication}
    {mqb : Bytes × Binding} {rest : List (Bytes × Binding)} {published : Bool × VirtualHost}
    {script : List Outcome} {after : World} (named : machine.server.shared.host.mmptr.Named)
    (inHand : machine.loop = .publishing address publication (mqb :: rest))
    (selected : publication.selects mqb.2 = true)
    (called : machine.server.shared.host.basicPublish mqb.1 publication.properties
      (publication.uuid mqb.1) publication.body ⟨machine.disk, script⟩ = .ok published after) :
    ({ machine.withShared { machine.server.shared with host := published.2 } with
        loop := .pushing address publication mqb.1 rest } : Machine).parcels +
      machine.refused ⟨.proceed, script⟩ = machine.parcels := by
  have owed : machine.owedParcels = _ := (congrArg (Loop.parcels machine.server.shared.host)
    inHand).trans (parcels_publishing _ address publication mqb rest)
  rw [parcels, parcels, owed, refused, inHand]
  simp only
  rw [if_pos selected, if_pos selected, called]
  rcases VirtualHost.basicPublish_ok called with ⟨absent, nothing, _⟩ |
    ⟨queue, inserted, there, stored, done⟩
  · have nobody : machine.server.shared.host.parcelFor publication mqb.1 = 0 := by
      rw [VirtualHost.parcelFor, absent]
    rw [nobody, nothing, add_zero, add_zero]
    rfl
  · have parcel : machine.server.shared.host.parcelFor publication mqb.1 =
        {⟨MessageMapper.ofNames mqb.1 machine.server.shared.host.mmptr.basedir,
          QueueMessage.composed publication.properties (publication.uuid mqb.1) queue.durable,
          publication.body⟩} := by
      rw [VirtualHost.parcelFor, there]
    have manager : published.2.mmptr = inserted.2 := by rw [done]
    have basedir : published.2.mmptr.basedir = machine.server.shared.host.mmptr.basedir := by
      rw [manager]
      exact (MessageManager.follows_insert stored).basedir
    have handed := @handedParcels_same machine
      { machine.withShared { machine.server.shared with host := published.2 } with
        loop := .pushing address publication mqb.1 rest } rfl basedir
    have withheld := @withheldParcels_same machine
      { machine.withShared { machine.server.shared with host := published.2 } with
        loop := .pushing address publication mqb.1 rest } rfl rfl basedir
    have owedLater : (Loop.pushing address publication mqb.1 rest).parcels published.2 =
        (Loop.publishing address publication rest).parcels machine.server.shared.host :=
      Loop.parcels_congr (by rw [done]) basedir
    have added : published.2.mmptr.parcels = machine.storedParcels + _ :=
      (congrArg MessageManager.parcels manager).trans (MessageManager.parcels_insert named stored)
    change _ + _ + published.2.mmptr.parcels +
      (Loop.pushing address publication mqb.1 rest).parcels published.2 + _ = _
    rw [handed, withheld, owedLater, added, ← parcel, done]
    cases inserted.1 with
    | true =>
        simp only [if_true, add_zero]
        exact stored_instead ..
    | false =>
        simp only [Bool.false_eq_true, if_false, add_zero]
        exact add_assoc ..

/-- Nothing is owed for a binding that the router does not accept. -/
theorem parcels_skips {address : Nat} {publication : Channel.Publication} {mqb : Bytes × Binding}
    {rest : List (Bytes × Binding)} {script : List Outcome}
    (inHand : machine.loop = .publishing address publication (mqb :: rest))
    (skipped : publication.selects mqb.2 = false) :
    ({ machine with loop := .publishing address publication rest } : Machine).parcels +
      machine.refused ⟨.proceed, script⟩ = machine.parcels := by
  have owed : machine.owedParcels = _ := (congrArg (Loop.parcels machine.server.shared.host)
    inHand).trans (parcels_publishing _ address publication mqb rest)
  rw [parcels, parcels, owed, refused, inHand]
  simp only [skipped, Bool.false_eq_true, if_false, add_zero]
  rfl

/-- A task that is pushed moves no parcel. -/
theorem parcels_pushes {address : Nat} {publication : Channel.Publication} {queueName : Bytes}
    {rest : List (Bytes × Binding)} (unborn : machine.Unborn)
    (inHand : machine.loop = .pushing address publication queueName rest) :
    ({ machine.withShared (Channel.pushTask address machine.server.shared queueName) with
        loop := .publishing address publication rest } : Machine).parcels = machine.parcels := by
  have withheld := @withheldParcels_push machine
    { machine.withShared (Channel.pushTask address machine.server.shared queueName) with
      loop := .publishing address publication rest } unborn ⟨address, queueName⟩ rfl rfl rfl
  have owed : machine.owedParcels = (Loop.publishing address publication rest).parcels
      machine.server.shared.host := by
    rw [owedParcels, inHand]
    rfl
  rw [parcels, parcels, withheld, owed]
  rfl

/-- Steps that change what is stored, while the loop owes nothing before or after. -/
theorem parcels_storing {more less : Multiset Parcel} (sent : next.sent = machine.sent)
    (phases : next.phase = machine.phase)
    (pool : next.server.shared.pool = machine.server.shared.pool)
    (basedir : next.server.shared.host.mmptr.basedir = machine.server.shared.host.mmptr.basedir)
    (stored : next.storedParcels + less = machine.storedParcels + more)
    (before : machine.owedParcels = 0) (after : next.owedParcels = 0) :
    next.parcels + less = machine.parcels + more := by
  rw [parcels, parcels, handedParcels_same sent basedir, withheldParcels_same phases pool basedir,
    before, after, add_zero, add_zero, add_assoc, stored, ← add_assoc]

variable [Protobuf] {script : List Outcome} {after : World}

/-- A further step of the request in hand. -/
theorem Proceeds.parcels (addressed : machine.Addressed) (unborn : machine.Unborn)
    (prepared : machine.Prepared) (stepped : perform machine ⟨.proceed, script⟩ = .ok next)
    {result : Machine} (same : next = { result with disk := after.disk })
    (proceeds : machine.Proceeds ⟨machine.disk, script⟩ after result) :
    next.parcels + (machine.refused ⟨.proceed, script⟩ + machine.discarded ⟨.proceed, script⟩) =
      machine.parcels + machine.received ⟨.proceed, script⟩ := by
  have unchanged : next.parcels = result.parcels := by rw [same]; rfl
  rw [unchanged]
  cases proceeds with
  | rests idle =>
      rw [refused, discarded, received, stepped, idle]
      rfl
  | finishes inHand =>
      rcases inHand with ⟨address, publication, inHand⟩ | inHand
      all_goals
        have nothing : machine.owedParcels = 0 := by
          rw [owedParcels, inHand]
          rfl
        rw [refused, discarded, received, stepped, inHand]
        exact parcels_storing rfl rfl rfl rfl rfl nothing rfl
  | skips inHand routed =>
      have discarded : machine.discarded ⟨.proceed, script⟩ = 0 := by
        rw [Machine.discarded, inHand]
      have received : machine.received ⟨.proceed, script⟩ = 0 := by
        rw [Machine.received, stepped, inHand]
      rw [discarded, received, add_zero, add_zero]
      exact parcels_skips inHand (by rw [Channel.Publication.selects, routed])
  | inserts inHand routed called =>
      have discarded : machine.discarded ⟨.proceed, script⟩ = 0 := by
        rw [Machine.discarded, inHand]
      have received : machine.received ⟨.proceed, script⟩ = 0 := by
        rw [Machine.received, stepped, inHand]
      rw [discarded, received, add_zero, add_zero]
      exact parcels_inserts addressed.named inHand (by rw [Channel.Publication.selects, routed])
        called
  | pushes inHand =>
      rw [refused, discarded, received, stepped, inHand]
      exact congrArg (· + 0) (parcels_pushes unborn inHand)
  | @recovers reference sql queue mmptr inHand recovered =>
      have nothing : machine.owedParcels = 0 := by
        rw [owedParcels, inHand]
        rfl
      have filled := MessageManager.parcels_recover recovered
      rw [prepared.parcelsIn inHand, add_zero] at filled
      have received : machine.received ⟨.proceed, script⟩ = mmptr.parcelsIn reference := by
        rw [Machine.received, stepped, inHand, same]
        rfl
      rw [refused, discarded, received, inHand]
      exact parcels_storing rfl rfl rfl (MessageManager.follows_recover recovered).basedir
        ((add_zero _).trans filled) nothing rfl
  | @declares sql queue inHand =>
      have nothing : machine.owedParcels = 0 := by
        rw [owedParcels, inHand]
        rfl
      rw [refused, discarded, received, stepped, inHand]
      exact parcels_storing rfl rfl rfl rfl rfl nothing rfl
  | @clears reference sql queueName mmptr inHand cleared =>
      have nothing : machine.owedParcels = 0 := by
        rw [owedParcels, inHand]
        rfl
      rw [refused, discarded, received, stepped, inHand, zero_add]
      exact parcels_storing rfl rfl rfl (MessageManager.follows_clearStore cleared).basedir
        ((MessageManager.parcels_clearStore cleared).trans (add_zero _).symm) nothing rfl
  | @deletes sql queueName inHand =>
      have nothing : machine.owedParcels = 0 := by
        rw [owedParcels, inHand]
        rfl
      rw [refused, discarded, received, stepped, inHand]
      exact parcels_storing rfl rfl rfl rfl rfl nothing rfl
  | @closes channel rest shared inHand destroyed =>
      have nothing : machine.owedParcels = 0 := by
        rw [owedParcels, inHand]
        rfl
      have calm := Shared.calm_destroy destroyed
      rw [refused, discarded, received, stepped, inHand]
      exact parcels_storing rfl rfl calm.pool (Shared.follows_destroy destroyed).messages.basedir
        (congrArg (· + 0) calm.parcels) nothing rfl

omit [Protobuf] in
/-- A step that takes something up, and stores nothing. -/
theorem parcels_taking (idle : machine.loop = .idle) (sent : next.sent = machine.sent)
    (phases : next.phase = machine.phase)
    (pool : next.server.shared.pool = machine.server.shared.pool)
    (basedir : next.server.shared.host.mmptr.basedir = machine.server.shared.host.mmptr.basedir)
    (stored : next.server.shared.host.mmptr.parcels = machine.server.shared.host.mmptr.parcels) :
    next.parcels = machine.parcels + next.owedParcels := by
  have nothing : machine.owedParcels = 0 := by
    rw [owedParcels, idle]
    rfl
  have storedParcels : next.storedParcels = machine.storedParcels := stored
  rw [parcels, parcels, handedParcels_same sent basedir, withheldParcels_same phases pool basedir,
    nothing, storedParcels, add_zero]

/-- The first step of a request. -/
theorem Accepts.parcels (idle : machine.loop = .idle) {conn : Nat} {chance : Chance}
    {packet : Packet} {world : World}
    (accepts : machine.Accepts conn chance world after packet next) :
    next.parcels = machine.parcels + next.owedParcels := by
  have followed := accepts.follows
  refine parcels_taking idle followed.sent followed.phase ?_ followed.shared.messages.basedir ?_
  · cases accepts with
    | handles storeless handled => exact (Shared.calm_packet storeless handled).pool
    | _ => rfl
  · cases accepts with
    | handles storeless handled => exact (Shared.calm_packet storeless handled).parcels
    | refuses => rfl
    | publishes opened => rfl
    | recovers introduced => exact (MessageManager.parcels_introduce introduced).1
    | declares introduced => exact (MessageManager.parcels_introduce introduced).1
    | deletes onward => exact MessageManager.parcels_withdraw _ _

/-- The store of a declared queue is new. -/
theorem prepared_accept (idle : machine.loop = .idle) {conn : Nat} {chance : Chance}
    {packet : Packet} {world : World}
    (accepted : machine.accept conn chance packet world = .ok next after) : next.Prepared := by
  have whole : ∀ {packet : Packet}, (do
        let done ← machine.server.handle conn chance packet
        return { machine with server := done.2 } : FileM Machine) world = .ok next after →
      next.Prepared := by
    intro packet completed
    rcases bind_eq_ok completed with ⟨done, middle, handled, rest⟩
    cases rest
    refine prepared_of_loop fun reference sql queue recovering => ?_
    cases idle.symm.trans recovering
  cases packet with
  | openChannel rid cid => exact @whole (.openChannel rid cid) accepted
  | closeChannel rid cid => exact @whole (.closeChannel rid cid) accepted
  | request rid cid request =>
      unfold accept at accepted
      simp only at accepted
      cases opened : machine.server.channelAt conn cid with
      | none =>
          rw [opened] at accepted
          cases request <;> exact whole accepted
      | some channel =>
          rw [opened] at accepted
          cases request with
          | basicPublish exchangeName properties body =>
              simp only at accepted
              cases found : machine.server.shared.host.selectExchange exchangeName with
              | none =>
                  rw [found] at accepted
                  cases accepted
                  refine prepared_of_loop fun reference sql queue recovering => ?_
                  cases idle.symm.trans recovering
              | some exchange =>
                  rw [found] at accepted
                  cases accepted
                  exact prepared_of_loop fun _ _ _ impossible => nomatch impossible
          | declareQueue queue =>
              rcases bind_eq_ok accepted with ⟨⟨store, mmptr⟩, middle, entered, rest⟩
              cases rest
              intro reference sql declared recovering
              rcases MessageManager.introduce_cases entered with
                ⟨_, known, _⟩ | ⟨_, made, new, admitted⟩
              · cases known
                cases recovering
              · cases QueueMessage.new_ok new
                cases admitted
                cases recovering
                let place := MessageMapper.ofNames queue.name machine.server.shared.host.mmptr.basedir
                refine ⟨{ mapper := place }, ?_, rfl, rfl⟩
                exact (Registry.object_register ..).trans (if_pos rfl)
          | deleteQueue queueName =>
              cases accepted
              refine prepared_of_loop fun reference sql queue recovering => ?_
              cases withdrawn : (machine.server.shared.host.mmptr.withdraw queueName).1 with
              | none =>
                  rw [withdrawn] at recovering
                  cases recovering
              | some store =>
                  rw [withdrawn] at recovering
                  cases recovering
          | declareExchange exchange => exact whole accepted
          | deleteExchange exchangeName => exact whole accepted
          | queueBind exchangeName queueName bindingKey => exact whole accepted
          | queueUnbind exchangeName queueName => exact whole accepted
          | basicAck queueName messageId => exact whole accepted
          | basicConsume consumerTag queueName autoAck => exact whole accepted
          | basicCancel consumerTag queueName => exact whole accepted

/-- A further step is never a new start. -/
theorem Proceeds.prepared {world : World} (prepared : machine.Prepared)
    (proceeds : machine.Proceeds world after next) : next.Prepared := by
  cases proceeds with
  | rests idle => exact prepared
  | _ => exact prepared_of_loop fun _ _ _ impossible => nomatch impossible

/-- A task takes nothing from an empty store. -/
theorem Works.prepared {world : World} (prepared : machine.Prepared) {index : Nat} {task : Task}
    (works : machine.Works index task world after next) : next.Prepared := by
  cases works with
  | findsNothing looked nothing quiet =>
      rw [MessageManager.frontOf_of_empty nothing]
      exact prepared
  | @takes reference store pointer rest looked there pending =>
      intro other sql queue recovering
      rcases prepared other sql queue recovering with ⟨stored, storedThere, empty, mapper⟩
      refine ⟨stored, ?_, empty, mapper⟩
      have distinct : other ≠ reference := by
        rintro rfl
        cases there.symm.trans storedThere
        cases pending.symm.trans empty
      exact (Registry.object_update ..).trans ((if_neg distinct).trans storedThere)
  | acknowledges acking removed =>
      intro other sql queue recovering
      rcases prepared other sql queue recovering with ⟨stored, there, empty, mapper⟩
      have followed := MessageManager.follows_removeFrom removed
      rcases followed.stores.kept other stored there with ⟨later, laterThere, grown⟩
      rcases (MessageManager.quiet_removeFrom removed).stores.kept other stored there with
        ⟨same, sameThere, quiet⟩
      cases laterThere.symm.trans sameThere
      refine ⟨later, laterThere, ?_, ?_⟩
      · rcases quiet.msgs with kept | dropped
        · exact kept.trans empty
        · exact dropped
      · exact (grown.mapper.trans mapper).trans
          (congrArg (MessageMapper.ofNames queue.name) followed.basedir.symm)
  | _ => exact prepared

end Moving

/-! ## All steps -/

/-- What the books rest on. -/
structure Booked (machine : Machine) : Prop where
  addressed : machine.Addressed
  unborn : machine.Unborn
  prepared : machine.Prepared

section Steps

variable [Protobuf] {machine next : Machine} {event : Event}

theorem booked_step (booked : machine.Booked) (stepped : perform machine event = .ok next) :
    next.Booked := by
  refine ⟨addressed_step booked.addressed booked.unborn stepped, unborn_step booked.unborn stepped, ?_⟩
  rcases perform_eq_ok stepped with ⟨result, world, completed, same⟩
  rw [same]
  change result.Prepared
  rcases event with ⟨move, script⟩
  cases move with
  | connect conn =>
      cases completed
      cases idle : machine.isIdle with
      | true => exact booked.prepared
      | false => exact booked.prepared
  | disconnect conn =>
      cases completed
      cases idle : machine.isIdle with
      | false => exact booked.prepared
      | true =>
          simp only [if_true, disconnect]
          cases machine.server.connections.lookup conn with
          | none => exact booked.prepared
          | some connection =>
              refine prepared_of_loop fun _ _ _ impossible => ?_
              cases impossible
  | packet conn chance packet =>
      unfold step at completed
      cases idle : machine.isIdle with
      | false =>
          rw [idle] at completed
          cases completed
          exact booked.prepared
      | true =>
          rw [idle] at completed
          exact prepared_accept (loop_of_isIdle idle) completed
  | proceed => exact (proceed_cases completed).prepared booked.prepared
  | work index =>
      change machine.work index _ = _ at completed
      unfold work at completed
      cases listed : machine.server.shared.pool[index]? with
      | none =>
          rw [listed] at completed
          cases completed
          exact booked.prepared
      | some task =>
          rw [listed] at completed
          exact (consume_works completed).prepared booked.prepared

/-- The books balance in every step. -/
theorem parcels_step (booked : machine.Booked) (stepped : perform machine event = .ok next) :
    next.parcels + (machine.refused event + machine.discarded event) =
      machine.parcels + machine.received event := by
  rcases perform_eq_ok stepped with ⟨result, world, completed, same⟩
  rcases event with ⟨move, script⟩
  cases move with
  | connect conn =>
      have nothing : machine.received ⟨.connect conn, script⟩ = 0 := by rw [received, stepped]
      rw [nothing, same]
      cases completed
      cases idle : machine.isIdle <;> rfl
  | disconnect conn =>
      have nothing : machine.received ⟨.disconnect conn, script⟩ = 0 := by rw [received, stepped]
      rw [nothing, same]
      cases completed
      cases idle : machine.isIdle with
      | false => rfl
      | true =>
          simp only [if_true, disconnect]
          cases machine.server.connections.lookup conn with
          | none => rfl
          | some connection =>
              refine parcels_storing rfl rfl rfl rfl rfl ?_ rfl
              rw [owedParcels, loop_of_isIdle idle]
              rfl
  | packet conn chance packet =>
      unfold step at completed
      cases idle : machine.isIdle with
      | false =>
          rw [idle] at completed
          cases completed
          have nothing : machine.received ⟨.packet conn chance packet, script⟩ = 0 := by
            rw [received, stepped]
            cases inHand : machine.loop with
            | idle =>
                rw [isIdle, inHand] at idle
                cases idle
            | _ => rfl
          rw [nothing, same]
          rfl
      | true =>
          rw [idle] at completed
          have rests := loop_of_isIdle idle
          have comes : machine.received ⟨.packet conn chance packet, script⟩ = next.owedParcels := by
            rw [received, stepped, rests]
          have nothing : machine.refused ⟨.packet conn chance packet, script⟩ +
              machine.discarded ⟨.packet conn chance packet, script⟩ = 0 := rfl
          have taken : result.parcels = machine.parcels + result.owedParcels :=
            (accept_cases completed).parcels rests
          rw [comes, nothing, add_zero, same]
          exact taken
  | proceed =>
      exact (proceed_cases completed).parcels booked.addressed booked.unborn booked.prepared stepped
        same
  | work index =>
      have nothing : machine.received ⟨.work index, script⟩ = 0 := by rw [received, stepped]
      have unchanged : result.parcels = machine.parcels := by
        change machine.work index _ = _ at completed
        unfold work at completed
        cases listed : machine.server.shared.pool[index]? with
        | none =>
            rw [listed] at completed
            cases completed
            rfl
        | some task =>
            rw [listed] at completed
            exact (consume_works completed).parcels booked.addressed listed
      rw [nothing, same]
      exact congrArg (· + (0 + 0)) unchanged

end Steps

end Machine

end ProtobufMq
