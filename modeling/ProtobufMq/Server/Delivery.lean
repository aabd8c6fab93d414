import ProtobufMq.Server.Stores

namespace ProtobufMq

open Foundation

/-!
# A message leaves the pending list only to be delivered

A task takes a message out of the store first and asks for a consumer after
that, in another manager.  When there is nobody to give the message to, the
task ends, and the message stays among the waiting ones although it was sent
to nobody.

So deliveries are right exactly as long as every task that has taken a message
finds somebody: the queue has a consumer unit when the task looks for one, and
when the task chooses, that unit is still the one of the queue and has a
consumer.  Under this condition, in any interleaving of requests and tasks,
every message taken is handed over once and every waiting message was sent.
-/

namespace Phase

/-- The message that the task has taken. -/
def held : Phase → Option Taken
  | .ready | .looked _ => none
  | .taken took | .asking took _ | .chosen took _ | .delivered took _ | .acking took _ _ => some took
  | .ended outcome => outcome.map Prod.fst

/-- The consumer that the task has chosen. -/
def choice : Phase → Option Choice
  | .ready | .looked _ | .taken _ | .asking _ _ => none
  | .chosen _ made | .delivered _ made | .acking _ made _ => some made
  | .ended outcome => outcome.bind Prod.snd

/-- The calls of callbacks that the task has behind it. -/
def deliveries (index : Nat) : Phase → List Delivery
  | .delivered took made | .acking took made _ | .ended (some (took, some made)) =>
      [⟨index, took, made⟩]
  | _ => []

/-- The task has not ended. -/
def AtWork : Phase → Prop
  | .ended _ => False
  | _ => True

end Phase

namespace Machine

/-- The calls of callbacks that a task made. -/
def sentBy (machine : Machine) (index : Nat) : List Delivery :=
  machine.sent.filter fun delivery => delivery.task = index

/-- The message is in the pending list of its store. -/
def Pending (machine : Machine) (taken : Taken) : Prop :=
  ∃ store, machine.server.shared.host.mmptr.queueMsgs.object taken.store = some store ∧
    taken.pointer ∈ store.msgs

/-- Messages are taken to be delivered. -/
structure Settled (machine : Machine) : Prop where
  /-- A task that has ended gave the message that it took to one callback, if the
  message is not back in the pending list. -/
  handed : ∀ index taken outcome, machine.phase index = .ended (some (taken, outcome)) →
    (∃ choice, machine.sentBy index = [⟨index, taken, choice⟩] ∧
      choice.consumer ∈ choice.candidates) ∨ machine.Pending taken
  /-- Whom a task chooses is registered on the queue at that moment. -/
  registered : ∀ index choice, (machine.phase index).choice = some choice →
    choice.consumer ∈ choice.candidates
  /-- A waiting message was sent, or is in the hands of a task. -/
  waiting : ∀ reference store msgId pointer,
    machine.server.shared.host.mmptr.queueMsgs.object reference = some store →
    store.waitackMsgs.lookup msgId = some pointer →
    (∃ delivery ∈ machine.sent, delivery.taken = ⟨reference, pointer⟩) ∨
      ∃ index, (machine.phase index).AtWork ∧
        (machine.phase index).held = some ⟨reference, pointer⟩

/-- A task that is about to look for a consumer finds one. -/
def FindsConsumer (machine : Machine) (task : Task) : Phase → Prop
  | .taken _ => machine.isOpen task.channel = true →
      machine.server.shared.cmptr.qconsumers.find task.queueName ≠ none
  | .asking _ unit =>
      machine.server.shared.cmptr.qconsumers.find task.queueName = some unit ∧
        machine.server.shared.cmptr.registered task.queueName ≠ []
  | _ => True

instance (machine : Machine) (task : Task) : ∀ phase, Decidable (machine.FindsConsumer task phase)
  | .taken _ => inferInstanceAs (Decidable (_ → _))
  | .asking _ _ => inferInstanceAs (Decidable (_ ∧ _))
  | .ready | .looked _ | .chosen _ _ | .delivered _ _ | .acking _ _ _ | .ended _ => .isTrue trivial

/-- The condition on a step: a task that has taken a message finds a consumer. -/
def ConsumerThere (machine : Machine) (event : Event) : Prop :=
  match event.move with
  | .work index => ∀ task ∈ machine.server.shared.pool[index]?,
      machine.FindsConsumer task (machine.phase index)
  | _ => True

instance (machine : Machine) : ∀ event, Decidable (machine.ConsumerThere event)
  | ⟨.work index, _⟩ => inferInstanceAs (Decidable (∀ task ∈ machine.server.shared.pool[index]?,
      machine.FindsConsumer task (machine.phase index)))
  | ⟨.connect _, _⟩ | ⟨.disconnect _, _⟩ | ⟨.packet _ _ _, _⟩ | ⟨.proceed, _⟩ => .isTrue trivial

/-! ## What every interleaving keeps -/

/-- The bookkeeping that no step disturbs. -/
structure Orderly (machine : Machine) : Prop where
  sound : ∀ reference store,
    machine.server.shared.host.mmptr.queueMsgs.object reference = some store → store.Sound
  /-- A message that was taken does not come back. -/
  gone : ∀ index taken, (machine.phase index).held = some taken →
    ∃ store, machine.server.shared.host.mmptr.queueMsgs.object taken.store = some store ∧
      taken.pointer.addr < store.allocated ∧
      ∀ pointer ∈ store.msgs, pointer.addr ≠ taken.pointer.addr
  waiting : ∀ reference store msgId pointer,
    machine.server.shared.host.mmptr.queueMsgs.object reference = some store →
    store.waitackMsgs.lookup msgId = some pointer →
    ∃ index, (machine.phase index).held = some ⟨reference, pointer⟩
  sent : ∀ index, machine.sentBy index = (machine.phase index).deliveries index
  apart : machine.server.shared.cmptr.Apart machine.server.shared.allocated

/-- The invariant under the condition. -/
structure Attended (machine : Machine) : Prop where
  orderly : machine.Orderly
  registered : ∀ index choice, (machine.phase index).choice = some choice →
    choice.consumer ∈ choice.candidates
  served : ∀ index taken, machine.phase index ≠ .ended (some (taken, none))

theorem Orderly.not_pending {machine : Machine} (orderly : machine.Orderly) {index : Nat}
    {taken : Taken} (held : (machine.phase index).held = some taken) : ¬ machine.Pending taken := by
  rintro ⟨store, there, member⟩
  rcases orderly.gone index taken held with ⟨other, otherThere, _, absent⟩
  cases there.symm.trans otherThere
  exact absent taken.pointer member rfl

theorem Attended.settled {machine : Machine} (attended : machine.Attended) : machine.Settled := by
  refine ⟨fun index taken outcome ended => Or.inl ?_, attended.registered,
    fun reference store msgId pointer there found => ?_⟩
  · cases outcome with
    | none => exact absurd ended (attended.served index taken)
    | some choice =>
        refine ⟨choice, ?_, attended.registered index choice (by rw [ended]; rfl)⟩
        rw [attended.orderly.sent index, ended]
        rfl
  · rcases attended.orderly.waiting reference store msgId pointer there found with ⟨index, held⟩
    cases phase : machine.phase index with
    | ended outcome =>
        rw [phase] at held
        rcases Option.map_eq_some_iff.mp held with ⟨⟨taken, chosen⟩, same, first⟩
        rw [same] at phase
        cases chosen with
        | none => exact absurd phase (attended.served index taken)
        | some choice =>
            have sent : (⟨index, taken, choice⟩ : Delivery) ∈ machine.sentBy index := by
              rw [attended.orderly.sent index, phase]
              exact List.mem_singleton_self _
            exact Or.inl ⟨_, List.mem_of_mem_filter sent, first⟩
    | _ => exact Or.inr ⟨index, by rw [phase]; trivial, held⟩

/-- What does not depend on the task whose phase is changed. -/
theorem withPhase_same {β : Type} (machine : Machine) (read : Nat → Phase → β) {index : Nat}
    {phase : Phase} (same : read index phase = read index (machine.phase index)) (other : Nat) :
    read other ((machine.withPhase index phase).phase other) = read other (machine.phase other) := by
  change read other (Function.update machine.phase index phase other) = _
  by_cases equal : other = index
  · subst equal
    rw [Function.update_self]
    exact same
  · rw [Function.update_of_ne equal]

theorem withPhase_self (machine : Machine) (index : Nat) (phase : Phase) :
    (machine.withPhase index phase).phase index = phase :=
  Function.update_self ..

theorem withPhase_other (machine : Machine) {index other : Nat} (phase : Phase)
    (distinct : other ≠ index) : (machine.withPhase index phase).phase other = machine.phase other :=
  Function.update_of_ne distinct ..

/-- A message that waits after a `front` waited before, or is the one taken. -/
theorem lookup_front {pointer waiting : MessagePtr} {waitackMsgs : Dictionary Bytes MessagePtr}
    {msgId : Bytes}
    (found : (Dictionary.insertNew pointer.id pointer waitackMsgs).lookup msgId = some waiting) :
    waitackMsgs.lookup msgId = some waiting ∨ waiting = pointer := by
  rw [Dictionary.lookup_insertNew] at found
  by_cases same : msgId = pointer.id
  · rw [if_pos same] at found
    cases before : waitackMsgs.lookup pointer.id with
    | none =>
        rw [before] at found
        cases found
        exact Or.inr rfl
    | some stored =>
        rw [before] at found
        cases found
        exact Or.inl (same ▸ before)
  · rw [if_neg same] at found
    exact Or.inl found

section Keeping

variable {machine next : Machine}

/-- Steps in which nothing is taken and nothing is handed over. -/
theorem Orderly.of_same (orderly : machine.Orderly)
    (followed : machine.server.shared.Follows next.server.shared)
    (held : ∀ index, (next.phase index).held = (machine.phase index).held)
    (deliveries : ∀ index,
      (next.phase index).deliveries index = (machine.phase index).deliveries index)
    (sent : next.sent = machine.sent) : next.Orderly := by
  have stores := followed.messages.stores
  refine ⟨fun reference later there => ?_, fun index taken heldNow => ?_,
    fun reference later msgId pointer there found => ?_, fun index => ?_,
    followed.units orderly.apart⟩
  · rcases stores.new reference later there with ⟨store, old⟩ | young
    · rcases stores.kept reference store old with ⟨other, otherThere, follows⟩
      cases otherThere.symm.trans there
      exact follows.sound (orderly.sound reference store old)
    · exact young.sound
  · rcases orderly.gone index taken ((held index).symm.trans heldNow) with
      ⟨store, there, address, absent⟩
    rcases stores.kept taken.store store there with ⟨later, laterThere, follows⟩
    refine ⟨later, laterThere, Nat.lt_of_lt_of_le address follows.allocated,
      fun pointer member same => ?_⟩
    rcases follows.pending pointer member with old | young
    · exact absent pointer old same
    · exact Nat.not_le_of_lt address (same ▸ young)
  · rcases stores.new reference later there with ⟨store, old⟩ | young
    · rcases stores.kept reference store old with ⟨other, otherThere, follows⟩
      cases otherThere.symm.trans there
      rcases orderly.waiting reference store msgId pointer old
        (follows.waiting msgId pointer found) with ⟨index, heldThen⟩
      exact ⟨index, (held index).trans heldThen⟩
    · rw [young.nothingWaits msgId] at found
      cases found
  · have unchanged : next.sentBy index = machine.sentBy index := by
      rw [sentBy, sent]
      rfl
    rw [unchanged, orderly.sent index, deliveries index]

/-- A task takes the first pending message of a store. -/
theorem Orderly.takes (orderly : machine.Orderly) {index reference : Nat} {store : QueueMessage}
    {pointer : MessagePtr} {rest : List MessagePtr}
    (looked : machine.phase index = .looked reference)
    (there : machine.server.shared.host.mmptr.queueMsgs.object reference = some store)
    (pending : store.msgs = pointer :: rest) :
    ((machine.withMessages { machine.server.shared.host.mmptr with
      queueMsgs := machine.server.shared.host.mmptr.queueMsgs.update reference { store with
        msgs := rest
        waitackMsgs := Dictionary.insertNew pointer.id pointer store.waitackMsgs } }).withPhase
          index (.taken ⟨reference, pointer⟩)).Orderly := by
  let later : QueueMessage := { store with
    msgs := rest
    waitackMsgs := Dictionary.insertNew pointer.id pointer store.waitackMsgs }
  have sound := orderly.sound reference store there
  have addresses : pointer.addr ∉ rest.map MessagePtr.addr ∧ (rest.map MessagePtr.addr).Nodup := by
    have distinct := sound.distinct
    rw [pending, List.map_cons, List.nodup_cons] at distinct
    exact distinct
  have object : ∀ other, (machine.server.shared.host.mmptr.queueMsgs.update reference later).object
      other = if other = reference then some later
        else machine.server.shared.host.mmptr.queueMsgs.object other := by
    intro other
    rw [Registry.object_update]
    by_cases same : other = reference
    · rw [if_pos same, if_pos same, there]
      rfl
    · rw [if_neg same, if_neg same]
  refine ⟨fun other stored otherThere => ?_, fun task taken held => ?_,
    fun other stored msgId waiting otherThere found => ?_, fun task => ?_, orderly.apart⟩
  · change (machine.server.shared.host.mmptr.queueMsgs.update reference later).object other = _
      at otherThere
    rw [object] at otherThere
    by_cases same : other = reference
    · rw [if_pos same] at otherThere
      cases otherThere
      exact ⟨fun kept member => sound.addresses kept (pending ▸ List.mem_cons_of_mem _ member),
        addresses.2⟩
    · rw [if_neg same] at otherThere
      exact orderly.sound other stored otherThere
  · change ∃ stored, (machine.server.shared.host.mmptr.queueMsgs.update reference later).object
      taken.store = some stored ∧ _
    rw [object]
    by_cases same : task = index
    · rw [same, withPhase_self] at held
      cases held
      rw [if_pos rfl]
      refine ⟨later, rfl, sound.addresses pointer (pending ▸ List.mem_cons_self), ?_⟩
      intro kept member equal
      exact addresses.1 (equal ▸ List.mem_map_of_mem member)
    · rw [withPhase_other _ _ same] at held
      rcases orderly.gone task taken held with ⟨stored, storedThere, address, absent⟩
      by_cases here : taken.store = reference
      · rw [here] at storedThere
        cases there.symm.trans storedThere
        rw [if_pos here]
        exact ⟨later, rfl, address, fun kept member =>
          absent kept (pending ▸ List.mem_cons_of_mem _ member)⟩
      · rw [if_neg here]
        exact ⟨stored, storedThere, address, absent⟩
  · change (machine.server.shared.host.mmptr.queueMsgs.update reference later).object other = _
      at otherThere
    rw [object] at otherThere
    -- a message that waited already is held by another task, since this one held none
    have before : ∀ kept, machine.server.shared.host.mmptr.queueMsgs.object other = some kept →
        kept.waitackMsgs.lookup msgId = some waiting →
        ∃ task, ((machine.withPhase index (.taken ⟨reference, pointer⟩)).phase task).held =
          some ⟨other, waiting⟩ := by
      intro kept keptThere keptFound
      rcases orderly.waiting other kept msgId waiting keptThere keptFound with ⟨task, held⟩
      have distinct : task ≠ index := by
        intro same
        rw [same, looked] at held
        cases held
      refine ⟨task, ?_⟩
      rw [withPhase_other _ _ distinct]
      exact held
    by_cases same : other = reference
    · rw [if_pos same] at otherThere
      cases otherThere
      rcases lookup_front found with old | fresh
      · exact before store (same ▸ there) old
      · refine ⟨index, ?_⟩
        rw [withPhase_self, same, fresh]
        rfl
    · rw [if_neg same] at otherThere
      exact before stored otherThere found
  · change machine.sentBy task = _
    rw [orderly.sent task]
    exact (withPhase_same machine Phase.deliveries (by rw [looked]; rfl) task).symm

/-- A step that changes managers and the phase of one task, takes nothing and
hands nothing over. -/
theorem Orderly.turn (orderly : machine.Orderly) {index : Nat} {phase : Phase} {shared : Shared}
    (followed : machine.server.shared.Follows shared)
    (held : phase.held = (machine.phase index).held)
    (deliveries : phase.deliveries index = (machine.phase index).deliveries index) :
    ((machine.withShared shared).withPhase index phase).Orderly :=
  orderly.of_same followed (withPhase_same machine (fun _ => Phase.held) held)
    (withPhase_same machine Phase.deliveries deliveries) rfl

/-- A task calls the callback of the consumer that it chose. -/
theorem Orderly.delivers (orderly : machine.Orderly) {index : Nat} {taken : Taken}
    {choice : Choice} (chosen : machine.phase index = .chosen taken choice) :
    ({ machine.withPhase index (.delivered taken choice) with
      sent := machine.sent ++ [⟨index, taken, choice⟩] } : Machine).Orderly := by
  have held := withPhase_same machine (fun _ => Phase.held)
    (show (Phase.delivered taken choice).held = _ by rw [chosen]; rfl)
  refine ⟨orderly.sound, fun task other heldNow => orderly.gone task other
    ((held task).symm.trans heldNow), fun reference store msgId pointer there found => ?_,
    fun task => ?_, orderly.apart⟩
  · rcases orderly.waiting reference store msgId pointer there found with ⟨task, heldThen⟩
    exact ⟨task, (held task).trans heldThen⟩
  · let delivery : Delivery := ⟨index, taken, choice⟩
    change (machine.sent ++ [delivery]).filter (fun made => made.task = task) =
      ((machine.withPhase index (.delivered taken choice)).phase task).deliveries task
    have before : machine.sent.filter (fun delivery => delivery.task = task) =
        (machine.phase task).deliveries task := orderly.sent task
    rw [List.filter_append, before]
    by_cases same : task = index
    · subst same
      rw [withPhase_self, chosen, List.filter_singleton, decide_eq_true rfl]
      rfl
    · rw [withPhase_other _ _ same, List.filter_singleton, decide_eq_false (Ne.symm same)]
      exact List.append_nil _

/-- The phases that follow each other in a task. -/
inductive Turn (machine : Machine) (task : Task) : Phase → Phase → Prop where
  | missed : Turn machine task .ready (.ended none)
  | looks (store : Nat) : Turn machine task .ready (.looked store)
  | findsNothing (store : Nat) : Turn machine task (.looked store) (.ended none)
  | takes (store : Nat) (pointer : MessagePtr) :
      Turn machine task (.looked store) (.taken ⟨store, pointer⟩)
  | alone (taken : Taken) (opened : machine.isOpen task.channel = true)
      (nobody : machine.server.shared.cmptr.qconsumers.find task.queueName = none) :
      Turn machine task (.taken taken) (.ended (some (taken, none)))
  | asks (taken : Taken) (unit : Nat) : Turn machine task (.taken taken) (.asking taken unit)
  | refused (taken : Taken) (unit : Nat)
      (nobody : (machine.server.shared.cmptr.chooseFrom unit).1 = none) :
      Turn machine task (.asking taken unit) (.ended (some (taken, none)))
  | chooses (taken : Taken) (unit : Nat) (consumer : Consumer)
      (somebody : (machine.server.shared.cmptr.chooseFrom unit).1 = some consumer) :
      Turn machine task (.asking taken unit)
        (.chosen taken ⟨consumer, machine.server.shared.cmptr.registered task.queueName⟩)
  | delivers (taken : Taken) (choice : Choice) :
      Turn machine task (.chosen taken choice) (.delivered taken choice)
  | asksAck (taken : Taken) (choice : Choice) (store : Nat) :
      Turn machine task (.delivered taken choice) (.acking taken choice store)
  | leaves (taken : Taken) (choice : Choice) :
      Turn machine task (.delivered taken choice) (.ended (some (taken, some choice)))
  | acknowledges (taken : Taken) (choice : Choice) (store : Nat) :
      Turn machine task (.acking taken choice store) (.ended (some (taken, some choice)))
  | rests (outcome : Option (Taken × Option Choice)) :
      Turn machine task (.ended outcome) (.ended outcome)

/-- Choosing changes only the turn of a unit. -/
theorem chooseFrom_follows (unit : Nat) : machine.server.shared.Follows
    { machine.server.shared with
      cmptr := (machine.server.shared.cmptr.chooseFrom unit).2 } :=
  Shared.follows_of_messages machine.server.shared.host.mmptr.follows_refl rfl
    fun apart => apart.chooseFrom unit

/-- What one step of a task does. -/
theorem consume_turn [Protobuf] {index : Nat} {task : Task} {world after : World}
    (completed : machine.consume index task world = .ok next after) :
    ∃ phase, Turn machine task (machine.phase index) phase ∧ next.phase index = phase ∧
      (∀ other, other ≠ index → next.phase other = machine.phase other) ∧
      (machine.Orderly → next.Orderly) := by
  have same := machine.server.shared.follows_refl
  have others : ∀ phase other, other ≠ index →
      (machine.withPhase index phase).phase other = machine.phase other :=
    fun phase other distinct => machine.withPhase_other phase distinct
  cases consume_works completed with
  | missed ready opened unknown =>
      rw [ready]
      exact ⟨_, .missed, machine.withPhase_self index _, others _,
        fun orderly => orderly.turn same (by rw [ready]; rfl) (by rw [ready]; rfl)⟩
  | @looks store ready opened found =>
      rw [ready]
      exact ⟨_, .looks store, machine.withPhase_self index _, others _,
        fun orderly => orderly.turn same (by rw [ready]; rfl) (by rw [ready]; rfl)⟩
  | @findsNothing reference looked nothing quiet =>
      have followed : machine.server.shared.host.mmptr.Follows
          (machine.server.shared.host.mmptr.frontOf reference).2 := by
        rw [MessageManager.frontOf_of_empty nothing]
        exact machine.server.shared.host.mmptr.follows_refl
      rw [looked]
      exact ⟨_, .findsNothing reference, withPhase_self _ index _,
        fun other distinct => withPhase_other _ _ distinct, fun orderly => orderly.turn
          (Shared.follows_of_messages followed rfl id) (by rw [looked]; rfl) (by rw [looked]; rfl)⟩
  | @takes reference store pointer rest looked there pending =>
      rw [looked]
      exact ⟨_, .takes reference pointer, withPhase_self _ index _,
        fun other distinct => withPhase_other _ _ distinct,
        fun orderly => orderly.takes looked there pending⟩
  | @alone taken holds opened nobody =>
      rw [holds]
      exact ⟨_, .alone taken opened nobody, machine.withPhase_self index _, others _,
        fun orderly => orderly.turn same (by rw [holds]; rfl) (by rw [holds]; rfl)⟩
  | @asks taken unit holds found =>
      rw [holds]
      exact ⟨_, .asks taken unit, machine.withPhase_self index _, others _,
        fun orderly => orderly.turn same (by rw [holds]; rfl) (by rw [holds]; rfl)⟩
  | @refused taken unit asking nobody =>
      rw [asking]
      exact ⟨_, .refused taken unit nobody, withPhase_self _ index _,
        fun other distinct => withPhase_other _ _ distinct, fun orderly => orderly.turn
          (chooseFrom_follows unit) (by rw [asking]; rfl) (by rw [asking]; rfl)⟩
  | @chooses taken unit consumer asking somebody =>
      rw [asking]
      exact ⟨_, .chooses taken unit consumer somebody, withPhase_self _ index _,
        fun other distinct => withPhase_other _ _ distinct, fun orderly => orderly.turn
          (chooseFrom_follows unit) (by rw [asking]; rfl) (by rw [asking]; rfl)⟩
  | @delivers taken choice chosen opened =>
      rw [chosen]
      exact ⟨_, .delivers taken choice, machine.withPhase_self index _, others _,
        fun orderly => orderly.delivers chosen⟩
  | @asksAck taken choice store delivered =>
      rw [delivered]
      exact ⟨_, .asksAck taken choice store, machine.withPhase_self index _, others _,
        fun orderly => orderly.turn same (by rw [delivered]; rfl) (by rw [delivered]; rfl)⟩
  | @leaves taken choice delivered =>
      rw [delivered]
      exact ⟨_, .leaves taken choice, machine.withPhase_self index _, others _,
        fun orderly => orderly.turn same (by rw [delivered]; rfl) (by rw [delivered]; rfl)⟩
  | @acknowledges taken choice store mmptr acking removed =>
      rw [acking]
      exact ⟨_, .acknowledges taken choice store, withPhase_self _ index _,
        fun other distinct => withPhase_other _ _ distinct, fun orderly => orderly.turn
          (Shared.follows_of_messages (MessageManager.follows_removeFrom removed) rfl id)
          (by rw [acking]; rfl) (by rw [acking]; rfl)⟩
  | @rests outcome ended =>
      rw [ended]
      exact ⟨_, .rests outcome, rfl, fun _ _ => rfl, id⟩

end Keeping

/-! ## Runs -/

section Runs

variable {machine next : Machine}

/-- A step of the event loop. -/
theorem Attended.follows (attended : machine.Attended) (followed : machine.Follows next) :
    next.Attended := by
  refine ⟨attended.orderly.of_same followed.shared (fun index => ?_) (fun index => ?_)
    followed.sent, fun index => ?_, fun index => ?_⟩
  · rw [followed.phase]
  · rw [followed.phase]
  · rw [followed.phase]
    exact attended.registered index
  · rw [followed.phase]
    exact attended.served index

/-- A step of a task, when it finds a consumer. -/
theorem Attended.consume [Protobuf] (attended : machine.Attended) {index : Nat} {task : Task}
    {script : List Outcome} {world after : World}
    (listed : machine.server.shared.pool[index]? = some task)
    (there : machine.ConsumerThere ⟨.work index, script⟩)
    (completed : machine.consume index task world = .ok next after) : next.Attended := by
  rcases consume_turn completed with ⟨phase, turn, now, others, orderly⟩
  have condition := there task listed
  have registered := attended.registered index
  have served := attended.served index
  have settled : (∀ made, phase.choice = some made → made.consumer ∈ made.candidates) ∧
      ∀ took, phase ≠ .ended (some (took, none)) := by
    generalize machine.phase index = before at turn condition registered served
    cases turn with
    | missed => exact ⟨fun _ none => (nomatch none), fun _ => nofun⟩
    | looks store => exact ⟨fun _ none => (nomatch none), fun _ => nofun⟩
    | findsNothing store => exact ⟨fun _ none => (nomatch none), fun _ => nofun⟩
    | takes store pointer => exact ⟨fun _ none => (nomatch none), fun _ => nofun⟩
    | alone taken opened nobody => exact absurd nobody (condition opened)
    | asks taken unit => exact ⟨fun _ none => (nomatch none), fun _ => nofun⟩
    | refused taken unit nobody =>
        rcases ConsumerManager.chooseFrom_registered condition.1 condition.2 with
          ⟨consumer, chosen, _⟩
        rw [nobody] at chosen
        cases chosen
    | chooses taken unit consumer somebody =>
        rcases ConsumerManager.chooseFrom_registered condition.1 condition.2 with
          ⟨other, chosen, member⟩
        cases somebody.symm.trans chosen
        refine ⟨fun made picked => ?_, fun _ => nofun⟩
        cases picked
        exact member
    | delivers taken choice => exact ⟨registered, fun _ => nofun⟩
    | asksAck taken choice store => exact ⟨registered, fun _ => nofun⟩
    | leaves taken choice => exact ⟨registered, fun _ => nofun⟩
    | acknowledges taken choice store => exact ⟨registered, fun _ => nofun⟩
    | rests outcome => exact ⟨registered, served⟩
  refine ⟨orderly attended.orderly, fun other made picked => ?_, fun other took ended => ?_⟩
  · by_cases same : other = index
    · subst same
      rw [now] at picked
      exact settled.1 made picked
    · rw [others other same] at picked
      exact attended.registered other made picked
  · by_cases same : other = index
    · subst same
      rw [now] at ended
      exact settled.2 took ended
    · rw [others other same] at ended
      exact attended.served other took ended

/-- A message that was taken and given to nobody is lost to the property. -/
theorem Orderly.not_settled (orderly : machine.Orderly) {index : Nat} {taken : Taken}
    (unserved : machine.phase index = .ended (some (taken, none))) : ¬ machine.Settled := by
  intro settled
  rcases settled.handed index taken none unserved with ⟨choice, sent, _⟩ | pending
  · rw [orderly.sent index, unserved] at sent
    cases sent
  · exact orderly.not_pending (by rw [unserved]; rfl) pending

variable [Protobuf]

/-- A step that meets the condition keeps the invariant. -/
theorem attended_step {event : Event} (attended : machine.Attended)
    (there : machine.ConsumerThere event) (stepped : perform machine event = .ok next) :
    next.Attended := by
  rcases perform_cases stepped with ⟨result, after, same, moves |
    ⟨index, task, move, listed, completed⟩⟩
  all_goals
    have left : result.Follows next := by
      rw [same]
      exact ⟨rfl, rfl, result.server.shared.follows_refl⟩
  · exact (attended.follows moves.follows).follows left
  · rcases event with ⟨_, script⟩
    cases move
    exact (attended.consume listed there completed).follows left

theorem perform_work {index : Nat} {task : Task} {script : List Outcome} {world : World}
    (listed : machine.server.shared.pool[index]? = some task)
    (ran : machine.consume index task ⟨machine.disk, script⟩ = .ok next world) :
    perform machine ⟨.work index, script⟩ = .ok { next with disk := world.disk } := by
  have worked : machine.step (.work index) ⟨machine.disk, script⟩ = .ok next world := by
    change machine.work index _ = _
    rw [work, listed]
    exact ran
  rw [perform, performed_ok worked]
  rfl

/-- A task that finds no consumer breaks the property at once. -/
theorem consumerThere_of_settled {event : Event} (attended : machine.Attended)
    (settled : ∀ next, perform machine event = .ok next → next.Settled) :
    machine.ConsumerThere event := by
  rcases event with ⟨move, script⟩
  cases move with
  | work index =>
      intro task listed
      cases phase : machine.phase index with
      | taken taken =>
          intro opened nobody
          have ran : machine.consume index task ⟨machine.disk, script⟩ =
              .ok (machine.withPhase index (.ended (some (taken, none))))
                ⟨machine.disk, script⟩ := by
            simp only [consume, phase, opened, nobody]
            rfl
          rcases consume_turn ran with ⟨_, _, _, _, orderly⟩
          exact (orderly attended.orderly).not_settled (machine.withPhase_self index _)
            (settled _ (perform_work listed ran))
      | asking taken unit =>
          cases somebody : (machine.server.shared.cmptr.chooseFrom unit).1 with
          | none =>
              have ran : machine.consume index task ⟨machine.disk, script⟩ =
                  .ok ((machine.withShared { machine.server.shared with
                    cmptr := (machine.server.shared.cmptr.chooseFrom unit).2 }).withPhase index
                      (.ended (some (taken, none)))) ⟨machine.disk, script⟩ := by
                simp only [consume, phase, somebody]
                rfl
              rcases consume_turn ran with ⟨_, _, _, _, orderly⟩
              exact absurd (settled _ (perform_work listed ran))
                ((orderly attended.orderly).not_settled (withPhase_self _ index _))
          | some consumer =>
              have ran : machine.consume index task ⟨machine.disk, script⟩ =
                  .ok ((machine.withShared { machine.server.shared with
                    cmptr := (machine.server.shared.cmptr.chooseFrom unit).2 }).withPhase index
                      (.chosen taken ⟨consumer, machine.server.shared.cmptr.registered
                        task.queueName⟩)) ⟨machine.disk, script⟩ := by
                simp only [consume, phase, somebody]
                rfl
              have member := (settled _ (perform_work listed ran)).registered index
                ⟨consumer, machine.server.shared.cmptr.registered task.queueName⟩
                (congrArg Phase.choice (withPhase_self _ index _))
              rcases ConsumerManager.mem_registered.mp member with ⟨ours, selected, ourMember⟩
              rcases Registry.select_eq_some.mp selected with ⟨reference, found, ourThere⟩
              rcases ConsumerManager.chooseFrom_mem somebody with ⟨theirs, there, theirMember⟩
              have same := attended.orderly.apart.single reference unit ours theirs consumer
                ourThere there ourMember theirMember
              exact ⟨same ▸ found, List.ne_nil_of_mem member⟩
      | _ => trivial
  | _ => trivial

/-- A new server has taken nothing. -/
theorem attended_new {database : Database} {basedir : Bytes} {world after : World}
    {server : Server} (started : Server.new database basedir world = .ok server after)
    (disk : Disk) : ({ server := server, disk := disk } : Machine).Attended := by
  rcases Server.new_follows started with ⟨stores, apart⟩
  have untouched : ∀ reference store,
      server.shared.host.mmptr.queueMsgs.object reference = some store → store.Untouched := by
    intro reference store there
    rcases stores.stores.new reference store there with ⟨_, nothing⟩ | young
    · cases nothing
    · exact young
  refine ⟨⟨fun reference store there => (untouched reference store there).sound,
    fun _ _ none => (nomatch none), fun reference store msgId pointer there found => ?_,
    fun _ => rfl, apart⟩, fun _ _ none => (nomatch none), fun _ _ => nofun⟩
  rw [(untouched reference store there).nothingWaits msgId] at found
  cases found

/-- In every interleaving from the start of a server, messages are taken to be
delivered, in every state, if and only if every task that has taken a message
finds a consumer. -/
theorem settled_throughout_iff {database : Database} {basedir : Bytes} {world after : World}
    {server : Server} (started : Server.new database basedir world = .ok server after)
    (disk : Disk) (events : List Event) :
    Throughout perform Settled { server := server, disk := disk } events ↔
      Along perform ConsumerThere { server := server, disk := disk } events := by
  have sound : ∀ machine : Machine, machine.Attended → machine.Settled :=
    fun _ attended => attended.settled
  exact throughout_iff_along_of_stopping sound
    (fun _ _ _ attended there stepped => attended_step attended there stepped)
    (fun _ _ attended settled => consumerThere_of_settled attended settled)
    (attended_new started disk)

end Runs

/-! ## A queue with and without a consumer -/

/-- A client opens a channel and binds a queue to an exchange. -/
def binding : List Event :=
  [⟨.connect 0, []⟩, ⟨.packet 0 {} (.openChannel [] (ascii "c")), []⟩,
    ⟨.packet 0 {} (.request [] (ascii "c")
      (.declareExchange ⟨ascii "e", .fanout, .undurable, false, ∅⟩)), []⟩,
    ⟨.packet 0 {} (.request [] (ascii "c")
      (.declareQueue ⟨ascii "q", false, false, false, ∅⟩)), []⟩,
    ⟨.proceed, []⟩, ⟨.proceed, []⟩,
    ⟨.packet 0 {} (.request [] (ascii "c") (.queueBind (ascii "e") (ascii "q") [])), []⟩]

/-- A client publishes a message. -/
def publishing : List Event :=
  [⟨.packet 0 {} (.request [] (ascii "c") (.basicPublish (ascii "e") none [])), []⟩,
    ⟨.proceed, []⟩, ⟨.proceed, []⟩, ⟨.proceed, []⟩]

/-- The machine over an empty database and an empty disk. -/
def fresh : Machine :=
  { server := Server.fresh [], disk := fun _ => none }

/-- With a consumer, the message is delivered. -/
theorem settled_while_consuming :
    Throughout (@perform wireFormat) Settled fresh
      (binding ++ ⟨.packet 0 {} (.request [] (ascii "c")
        (.basicConsume (ascii "t") (ascii "q") false)), []⟩ :: publishing ++
        List.replicate 6 ⟨.work 0, []⟩) :=
  (@settled_throughout_iff wireFormat {} [] ⟨fun _ => none, []⟩ _ _ rfl _ _).mpr
    (by decide +kernel)

/-- Without a consumer, the message is taken and given to nobody. -/
theorem nobody_takes_delivery :
    ¬ ∀ events : List Event, Throughout (@perform wireFormat) Settled fresh events := by
  intro always
  have settled := (always (binding ++ publishing ++ List.replicate 4 ⟨.work 0, []⟩)).last rfl
  rcases settled.handed 0 _ _ rfl with ⟨choice, sent, _⟩ | ⟨store, there, member⟩
  · cases sent
  · cases there
    cases member

end Machine

end ProtobufMq
