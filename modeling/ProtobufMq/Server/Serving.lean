import ProtobufMq.Server.Lives
import ProtobufMq.Server.Gateway

namespace ProtobufMq

open Foundation

/-!
# What the server makes of the bytes

However the bytes of the connections are cut, and however their pieces
interleave with each other and with the tasks, the machine is given the requests
that the bytes of each connection say, one after another and in their order.
What a connection takes are the frames of the responses to these requests and of
the messages pushed to its channels, until it is shut down; and that happens for
a wrong frame and for a message that is no request, and for nothing else.
-/

namespace Server

/-- The handler of a packet replies with its ids or without a response, and the
connections stay the same. -/
theorem handle_replies [Protobuf] {server : Server} {conn : Nat} {chance : Chance}
    {packet : Packet} {world after : World} {done : Reply × Server}
    (completed : server.handle conn chance packet world = .ok done after) :
    (done.1 = .nothing ∨ done.1 = .shutdown ∨
        ∃ accepted, done.1 = .response packet.rid packet.cid accepted) ∧
      ∀ other, other ∈ done.2.connections ↔ other ∈ server.connections := by
  unfold handle at completed
  cases found : server.connections.lookup conn with
  | none =>
      rw [found] at completed
      cases completed
      exact ⟨Or.inr (Or.inl rfl), fun _ => Iff.rfl⟩
  | some connection =>
      have connected : conn ∈ server.connections := Dictionary.lookup_eq_some_mem found
      rw [found] at completed
      cases packet with
      | openChannel rid cid =>
          cases completed
          refine ⟨Or.inr (Or.inr ⟨_, rfl⟩), fun other => ?_⟩
          simp only [openChannel]
          cases connection.channels.lookup cid with
          | some channel => exact Iff.rfl
          | none => exact Dictionary.mem_assign connected _ other
      | closeChannel rid cid =>
          rcases bind_eq_ok completed with ⟨closed, middle, closes, rest⟩
          cases rest
          refine ⟨Or.inr (Or.inr ⟨_, rfl⟩), fun other => ?_⟩
          rcases closeChannel_cases (ofExcept_eq_ok closes).1 with
            same | ⟨channel, shared, _, _, same⟩
          · rw [same]
          · rw [same]
            exact Dictionary.mem_assign connected _ other
      | request rid cid request =>
          simp only at completed
          cases opened : connection.channels.lookup cid with
          | none =>
              rw [opened] at completed
              cases completed
              exact ⟨Or.inl rfl, fun _ => Iff.rfl⟩
          | some channel =>
              rw [opened] at completed
              rcases bind_eq_ok completed with ⟨result, middle, handled, rest⟩
              cases rest
              exact ⟨Or.inr (Or.inr ⟨_, rfl⟩), fun other => Dictionary.mem_assign connected _ other⟩

end Server

/-! ## What a step answers and pushes -/

namespace Machine

section Steps

variable [Protobuf] {machine next : Machine} {event : Event}

/-- The calls of callbacks are only added to. -/
theorem sent_perform (stepped : perform machine event = .ok next) : machine.sent <+: next.sent := by
  rcases perform_cases stepped with ⟨result, after, same, moves | ⟨index, task, _, _, consumed⟩⟩
  · rw [same]
    exact moves.follows.sent ▸ List.prefix_refl _
  · rw [same]
    have works := consume_works consumed
    cases works with
    | delivers chosen opened => exact List.prefix_append _ _
    | missed ready opened unknown => exact List.prefix_refl _
    | looks ready opened found => exact List.prefix_refl _
    | findsNothing looked nothing quiet => exact List.prefix_refl _
    | takes looked there pending => exact List.prefix_refl _
    | alone holds opened nobody => exact List.prefix_refl _
    | asks holds found => exact List.prefix_refl _
    | refused asking nobody => exact List.prefix_refl _
    | chooses asking somebody => exact List.prefix_refl _
    | asksAck delivered => exact List.prefix_refl _
    | leaves delivered => exact List.prefix_refl _
    | acknowledges acking removed => exact List.prefix_refl _
    | rests ended => exact List.prefix_refl _

/-- The server knows those that have connected and not disconnected. -/
theorem connections_perform (stepped : perform machine event = .ok next) (other : Nat) :
    other ∈ next.server.connections ↔
      (machine.isIdle = true ∧ event.move = .connect other ∨ other ∈ machine.server.connections) ∧
        ¬ (machine.isIdle = true ∧ event.move = .disconnect other) := by
  rcases perform_eq_ok stepped with ⟨result, after, completed, same⟩
  rw [same]
  change other ∈ result.server.connections ↔ _
  rcases event with ⟨move, script⟩
  cases move with
  | connect conn =>
      rw [step] at completed
      cases idle : machine.isIdle with
      | false =>
          rw [idle] at completed
          cases completed
          simp
      | true =>
          rw [idle] at completed
          cases completed
          change other ∈ Dictionary.insertNew conn {} machine.server.connections ↔ _
          rw [Dictionary.mem_insertNew]
          simp [eq_comm]
  | disconnect conn =>
      rw [step] at completed
      cases idle : machine.isIdle with
      | false =>
          rw [idle] at completed
          cases completed
          simp
      | true =>
          rw [idle] at completed
          cases completed
          simp only [if_true, disconnect]
          cases found : machine.server.connections.lookup conn with
          | none =>
              have unknown : conn ∉ machine.server.connections := AList.lookup_eq_none.mp found
              simp only [true_and, reduceCtorEq, false_or, Move.disconnect.injEq]
              exact ⟨fun member => ⟨member, fun isIt => unknown (isIt ▸ member)⟩, And.left⟩
          | some connection =>
              change other ∈ machine.server.connections.erase conn ↔ _
              rw [AList.mem_erase]
              simp [eq_comm, and_comm]
  | packet conn chance packet =>
      have frame : other ∈ result.server.connections ↔ other ∈ machine.server.connections := by
        rw [step] at completed
        cases idle : machine.isIdle with
        | false =>
            rw [idle] at completed
            cases completed
            exact Iff.rfl
        | true =>
            rw [idle] at completed
            cases accept_cases completed with
            | handles storeless handled => exact (Server.handle_replies handled).2 other
            | refuses => exact Iff.rfl
            | publishes opened => exact Iff.rfl
            | recovers introduced => exact Iff.rfl
            | declares introduced => exact Iff.rfl
            | deletes onward => exact Iff.rfl
      simp [frame]
  | proceed =>
      have frame : other ∈ result.server.connections ↔ other ∈ machine.server.connections := by
        cases proceed_cases completed <;> exact Iff.rfl
      simp [frame]
  | work index =>
      have frame : result.server.connections = machine.server.connections := by
        change machine.work index _ = _ at completed
        unfold work at completed
        cases listed : machine.server.shared.pool[index]? with
        | none =>
            rw [listed] at completed
            cases completed
            rfl
        | some task =>
            rw [listed] at completed
            cases consume_works completed <;> rfl
      simp [frame]

/-- The responses of a packet have its ids. -/
theorem mem_responses {conn : Nat} {chance : Chance} {packet : Packet} {script : List Outcome}
    {entry : Ticket × Bool} (member : entry ∈ machine.responses conn chance packet script) :
    entry.1 = ⟨conn, packet.rid, packet.cid⟩ := by
  unfold responses at member
  cases result : performed (machine.server.handle conn chance packet) machine.disk script with
  | error fault =>
      rw [result] at member
      cases member
  | ok done =>
      rw [result] at member
      rcases performed_eq_ok result with ⟨after, completed, _⟩
      rcases done with ⟨⟨reply, server⟩, disk⟩
      rcases (Server.handle_replies completed).1 with nothing | shut | ⟨accepted, response⟩
      · cases nothing
        cases member
      · cases shut
        cases member
      · cases response
        cases List.mem_singleton.mp member
        rfl

end Steps

end Machine

namespace Desk

/-- What a step answers, and what is in hand after it, are requests that were in hand or
are taken up in it. -/
theorem answered_perform [Protobuf] {desk next : Desk} {event : Machine.Event}
    {holds : Ticket → Prop}
    (performed : perform desk event = .ok next) (held : ∀ ticket ∈ desk.inHand, holds ticket)
    (asked : ∀ conn chance packet, event.move = .packet conn chance packet →
      holds ⟨conn, packet.rid, packet.cid⟩) :
    (∃ more, next.answered = desk.answered ++ more ∧ ∀ entry ∈ more, holds entry.1) ∧
      ∀ ticket ∈ next.inHand, holds ticket := by
  rcases perform_eq_ok performed with ⟨_, same⟩
  rw [same]
  have stays : ∀ machine : Machine,
      (∃ more, ({ desk with machine := machine } : Desk).answered = desk.answered ++ more ∧
        ∀ entry ∈ more, holds entry.1) ∧
        ∀ ticket ∈ ({ desk with machine := machine } : Desk).inHand, holds ticket :=
    fun machine => ⟨⟨[], (List.append_nil _).symm, fun _ member => absurd member List.not_mem_nil⟩,
      held⟩
  rcases event with ⟨move, script⟩
  cases move with
  | connect conn => exact stays _
  | disconnect conn => exact stays _
  | work index => exact stays _
  | proceed =>
      unfold enter goOn
      simp only
      split_ifs with idle
      · refine ⟨⟨_, rfl, fun entry member => ?_⟩, fun ticket inHand => by cases inHand⟩
        rcases List.mem_map.mp member with ⟨ticket, there, rfl⟩
        exact held ticket (Option.mem_toList.mp there)
      · exact stays _
  | packet conn chance packet =>
      have answers := asked conn chance packet rfl
      unfold enter takeUp
      simp only
      split_ifs with taken idle
      · refine ⟨⟨_, rfl, fun entry member => ?_⟩, fun ticket inHand => by cases inHand⟩
        rw [Machine.mem_responses member]
        exact answers
      · refine ⟨⟨[], (List.append_nil _).symm, fun _ member => absurd member List.not_mem_nil⟩,
          fun ticket inHand => ?_⟩
        cases inHand
        exact answers
      · exact stays _

end Desk

/-! ## A connection -/

namespace Link

variable [ProtobufRuntime] [Zlib]

/-- Letters are given to it one after another. -/
def tell (letters : List Letter) (link : Link) : Link :=
  letters.foldl (fun link letter => link.send letter.inLoop (ProtobufCodec.frame letter.message))
    link

/-- In what has arrived there is a frame that is wrong, or a message that is no request. -/
def Refused (received : Bytes) : Prop :=
  (ProtobufCodec.scanner.drain received).fault.isSome = true ∨
    ∃ message ∈ (ProtobufCodec.scanner.drain received).items, message.packet = none

/-- What a connection has written, and what it is still to write, of the letters that were
given to it: the responses in their order and the pushes in theirs, all of them until it is
shut down or closed, and none that came after that. -/
structure Tells (link : Link) (letters told late : List Letter) : Prop where
  output : link.output = told.flatMap fun letter => ProtobufCodec.frame letter.message
  queued : link.queued = late.flatMap fun letter => ProtobufCodec.frame letter.message
  responses : told.filter Letter.inLoop <+: letters.filter Letter.inLoop
  pushes : told.filter (!·.inLoop) ++ late <+: letters.filter (!·.inLoop)
  all : link.state = .connected →
    told.filter Letter.inLoop = letters.filter Letter.inLoop ∧
      told.filter (!·.inLoop) ++ late = letters.filter (!·.inLoop)

/-- What a connection has to do with the bytes that have arrived on it, of which some call
backs wait, and with the letters that were given to it. -/
structure Agrees (link : Link) (waiting : List ProtobufCodec.Callback)
    (letters : List Letter) : Prop where
  input : link.input.contents = (ProtobufCodec.scanner.drain link.received).rest
  requests : link.served ++ waiting.filterMap requestOf =
    (ProtobufCodec.scanner.drain link.received).items.filterMap WireMessage.packet
  /-- It is shut down for what is refused, and for nothing else. -/
  shut : link.state ≠ .disconnected →
    ((link.state = .disconnecting ∨ ∃ callback ∈ waiting, requestOf callback = none) ↔
      Refused link.received)
  tells : ∃ told late, link.Tells letters told late

section Steps

variable {link next : Link} {waiting : List ProtobufCodec.Callback}
  {letters told late : List Letter} {callback : ProtobufCodec.Callback}

/-- It goes on from what it has written and what is queued, as long as it does not come up
again. -/
theorem Tells.stays (tells : link.Tells letters told late) (output : next.output = link.output)
    (queued : next.queued = link.queued)
    (up : next.state = .connected → link.state = .connected) : next.Tells letters told late :=
  ⟨output.trans tells.output, queued.trans tells.queued, tells.responses, tells.pushes,
    fun connected => tells.all (up connected)⟩

/-- What was written was given to it. -/
theorem Tells.given (tells : link.Tells letters told late) (letter : Letter)
    (member : letter ∈ told) : letter ∈ letters := by
  cases inLoop : letter.inLoop with
  | true =>
      have there := tells.responses.subset (List.mem_filter.mpr ⟨member, inLoop⟩)
      exact List.mem_of_mem_filter there
  | false =>
      have isPush : letter ∈ told.filter (!·.inLoop) :=
        List.mem_filter.mpr ⟨member, by rw [inLoop]; rfl⟩
      exact List.mem_of_mem_filter (tells.pushes.subset (List.mem_append_left _ isPush))

/-- A letter is written, queued or, if it comes too late, dropped. -/
theorem Tells.send (tells : link.Tells letters told late) (letter : Letter) :
    ∃ told late, (link.send letter.inLoop (ProtobufCodec.frame letter.message)).Tells
      (letters ++ [letter]) told late := by
  unfold Link.send
  by_cases connected : link.state = .connected
  · have all := tells.all connected
    rw [if_pos connected]
    cases inLoop : letter.inLoop with
    | true =>
        refine ⟨told ++ [letter], late, ?_, tells.queued, ?_, ?_, fun _ => ?_⟩
        · simp [tells.output]
        · simp [all.1, inLoop]
        · simp [all.2, inLoop]
        · simp [all, inLoop]
    | false =>
        refine ⟨told, late ++ [letter], tells.output, ?_, ?_, ?_, fun _ => ?_⟩
        · simp [tells.queued]
        · simp [all.1, inLoop]
        · simp [← all.2, inLoop]
        · simp [all.1, ← all.2, inLoop]
  · rw [if_neg connected]
    refine ⟨told, late, tells.output, tells.queued, tells.responses.trans ?_,
      tells.pushes.trans ?_, fun other => absurd other connected⟩
    all_goals
      rw [List.filter_append]
      exact List.prefix_append _ _

/-- What is queued is written or, if it comes too late, lost. -/
theorem Tells.sendInLoop (tells : link.Tells letters told late) (isWriting : Bool) :
    ∃ told, (link.sendInLoop isWriting).Tells letters told [] := by
  have pushed : ∀ letter ∈ late, letter.inLoop = false := fun letter member => by
    have there := tells.pushes.subset (List.mem_append_right _ member)
    simpa using (List.mem_filter.mp there).2
  have responses : late.filter Letter.inLoop = [] :=
    List.filter_eq_nil_iff.mpr fun letter member => by rw [pushed letter member]; decide
  have pushes : late.filter (!·.inLoop) = late :=
    List.filter_eq_self.mpr fun letter member => by rw [pushed letter member]; rfl
  unfold Link.sendInLoop
  split_ifs with writes
  · refine ⟨told ++ late, ?_, rfl, ?_, ?_, fun connected => ?_⟩
    · simp only [tells.output, tells.queued, List.flatMap_append]
    · rw [List.filter_append, responses, List.append_nil]
      exact tells.responses
    · rw [List.filter_append, pushes, List.append_nil]
      exact tells.pushes
    · rw [List.filter_append, List.filter_append, responses, pushes, List.append_nil,
        List.append_nil]
      exact tells.all connected
  · refine ⟨told, tells.output, rfl, tells.responses, ?_,
      fun connected => absurd (Or.inl connected) writes⟩
    rw [List.append_nil]
    exact (List.prefix_append _ _).trans tells.pushes

theorem agrees_new : Agrees {} [] [] where
  input := by
    rw [ProtobufCodec.scanner.drain_short ProtobufCodec.scanner.look_nil]
    exact Buffer.contents_new 1024
  requests := by
    rw [ProtobufCodec.scanner.drain_short ProtobufCodec.scanner.look_nil]
    rfl
  shut _ := by
    rw [Refused, ProtobufCodec.scanner.drain_short ProtobufCodec.scanner.look_nil]
    simp
  tells := ⟨[], [], rfl, rfl, List.prefix_refl [], List.prefix_refl [], fun _ => ⟨rfl, rfl⟩⟩

theorem Agrees.close (agrees : Agrees link waiting letters) :
    Agrees link.close waiting letters := by
  rcases agrees.tells with ⟨told, late, tells⟩
  exact ⟨agrees.input, agrees.requests, fun alive => absurd rfl alive,
    told, late, tells.stays rfl rfl fun connected => by cases connected⟩

/-- A call back without a request shuts the connection down. -/
theorem Agrees.shutdown (agrees : Agrees link (callback :: waiting) letters)
    (nothing : requestOf callback = none) : Agrees link.shutdown waiting letters := by
  rcases agrees.tells with ⟨told, late, tells⟩
  have requests := agrees.requests
  rw [List.filterMap_cons_none nothing] at requests
  have refused : link.state ≠ .disconnected → Refused link.received := fun alive =>
    (agrees.shut alive).mp (Or.inr ⟨callback, List.mem_cons_self, nothing⟩)
  unfold Link.shutdown
  split_ifs with connected
  · exact ⟨agrees.input, requests, fun _ => iff_of_true (Or.inl rfl)
      (refused (by rw [connected]; exact fun other => by cases other)),
      told, late, tells.stays rfl rfl fun other => by cases other⟩
  · refine ⟨agrees.input, requests, fun alive => iff_of_true (Or.inl ?_) (refused alive),
      told, late, tells⟩
    cases state : link.state with
    | connected => exact absurd state connected
    | disconnecting => rfl
    | disconnected => exact absurd state alive

/-- A call back with a request gives it to the server. -/
theorem Agrees.serve (agrees : Agrees link (callback :: waiting) letters) {packet : Packet}
    (request : requestOf callback = some packet) : Agrees (link.serve packet) waiting letters := by
  refine ⟨agrees.input, ?_, fun alive => ?_, ?_⟩
  · have requests := agrees.requests
    rw [List.filterMap_cons_some request] at requests
    exact (List.append_assoc _ _ _).trans requests
  · refine Iff.trans (or_congr_right ?_) (agrees.shut alive)
    simp only [List.exists_mem_cons_iff, request, reduceCtorEq, false_or]
  · rcases agrees.tells with ⟨told, late, tells⟩
    exact ⟨told, late, tells.stays rfl rfl id⟩

/-- A piece that arrives leaves its call backs waiting. -/
theorem Agrees.receive (agrees : Agrees link [] letters) (alive : link.state ≠ .disconnected)
    {piece : Bytes} {input : Buffer}
    (kept : input.contents =
      (ProtobufCodec.scanner.receive link.input.contents piece).rest) :
    Agrees (link.receive piece input)
      (ProtobufCodec.callbacks (ProtobufCodec.scanner.receive link.input.contents piece))
      letters := by
  have whole : ProtobufCodec.scanner.drain (link.received ++ piece) = _ :=
    Scanner.drain_append link.received piece
  have requests := agrees.requests
  have shut := agrees.shut alive
  rw [agrees.input] at kept ⊢
  -- a connection that was shut down for its frames stays so
  have sticky : (ProtobufCodec.scanner.drain link.received).fault.isSome = true →
      (ProtobufCodec.scanner.receive (ProtobufCodec.scanner.drain link.received).rest
        piece).fault.isSome = true := by
    intro failed
    rcases Option.isSome_iff_exists.mp failed with ⟨errorCode, fault⟩
    rw [Scanner.receive_fault fault]
    rfl
  generalize ProtobufCodec.scanner.receive _ piece = drained at *
  have asked : (ProtobufCodec.callbacks drained).filterMap requestOf =
      drained.items.filterMap WireMessage.packet := by
    cases failed : drained.fault <;>
      simp [ProtobufCodec.callbacks, Drained.calls, failed, List.filterMap_map, requestOf,
        Function.comp_def]
  have stops : (∃ callback ∈ ProtobufCodec.callbacks drained, requestOf callback = none) ↔
      drained.fault.isSome = true ∨ ∃ message ∈ drained.items, message.packet = none := by
    cases failed : drained.fault <;>
      simp [ProtobufCodec.callbacks, Drained.calls, failed, requestOf, or_comm]
  refine ⟨?_, ?_, fun _ => ?_, ?_⟩
  · rw [Link.receive, whole]
    exact kept
  · simp only [List.filterMap_nil, List.append_nil] at requests
    rw [Link.receive, whole, List.filterMap_append, asked, requests]
  · rw [stops]
    simp only [List.not_mem_nil, false_and, exists_false, or_false] at shut
    simp only [Link.receive, Refused, whole, List.mem_append, shut]
    constructor
    · rintro ((failed | ⟨message, member, unknown⟩) | failed | ⟨message, member, unknown⟩)
      · exact Or.inl (sticky failed)
      · exact Or.inr ⟨message, Or.inl member, unknown⟩
      · exact Or.inl failed
      · exact Or.inr ⟨message, Or.inr member, unknown⟩
    · rintro (failed | ⟨message, member | member, unknown⟩)
      · exact Or.inr (Or.inl failed)
      · exact Or.inl (Or.inr ⟨message, member, unknown⟩)
      · exact Or.inr (Or.inr ⟨message, member, unknown⟩)
  · rcases agrees.tells with ⟨told, late, tells⟩
    exact ⟨told, late, tells.stays rfl rfl id⟩

/-- A connection that only writes goes on as before. -/
theorem Agrees.goes (agrees : Agrees link waiting letters) {others : List Letter}
    (kept : next.input = link.input ∧ next.served = link.served ∧
      next.received = link.received ∧ next.state = link.state)
    (tells : ∃ told late, next.Tells others told late) : Agrees next waiting others := by
  rcases kept with ⟨input, served, received, state⟩
  refine ⟨?_, ?_, ?_, tells⟩
  · rw [input, received]
    exact agrees.input
  · rw [served, received]
    exact agrees.requests
  · rw [state, received]
    exact agrees.shut

omit [ProtobufRuntime] [Zlib] in
/-- Writing changes neither its state nor what came. -/
theorem sendInLoop_kept (isWriting : Bool) (link : Link) :
    (link.sendInLoop isWriting).input = link.input ∧
      (link.sendInLoop isWriting).served = link.served ∧
      (link.sendInLoop isWriting).received = link.received ∧
      (link.sendInLoop isWriting).state = link.state := by
  unfold Link.sendInLoop
  split_ifs <;> exact ⟨rfl, rfl, rfl, rfl⟩

omit [ProtobufRuntime] [Zlib] in
theorem send_kept (inLoop : Bool) (bytes : Bytes) (link : Link) :
    (link.send inLoop bytes).input = link.input ∧
      (link.send inLoop bytes).served = link.served ∧
      (link.send inLoop bytes).received = link.received ∧
      (link.send inLoop bytes).state = link.state := by
  unfold Link.send
  split_ifs <;> exact ⟨rfl, rfl, rfl, rfl⟩

theorem tell_kept (letters : List Letter) (link : Link) :
    (link.tell letters).input = link.input ∧ (link.tell letters).served = link.served ∧
      (link.tell letters).received = link.received ∧ (link.tell letters).state = link.state := by
  induction letters generalizing link with
  | nil => exact ⟨rfl, rfl, rfl, rfl⟩
  | cons letter rest inductionHypothesis =>
      have first := send_kept letter.inLoop (ProtobufCodec.frame letter.message) link
      have later := inductionHypothesis
        (link.send letter.inLoop (ProtobufCodec.frame letter.message))
      exact ⟨later.1.trans first.1, later.2.1.trans first.2.1, later.2.2.1.trans first.2.2.1,
        later.2.2.2.trans first.2.2.2⟩

/-- Letters are written, queued or dropped, one after another. -/
theorem Tells.tell (tells : link.Tells letters told late) (more : List Letter) :
    ∃ told late, (link.tell more).Tells (letters ++ more) told late := by
  induction more generalizing link letters told late with
  | nil => exact ⟨told, late, by rw [List.append_nil]; exact tells⟩
  | cons letter rest inductionHypothesis =>
      rcases tells.send letter with ⟨toldNext, lateNext, tellsNext⟩
      rw [List.append_cons]
      exact inductionHypothesis tellsNext

/-- What is given to a connection is to be written as long as it is connected. -/
theorem Agrees.tell (agrees : Agrees link waiting letters) (more : List Letter) :
    Agrees (link.tell more) waiting (letters ++ more) := by
  rcases agrees.tells with ⟨told, late, tells⟩
  exact agrees.goes (tell_kept more link) (tells.tell more)

/-- What is queued is written. -/
theorem Agrees.sendInLoop (agrees : Agrees link waiting letters) (isWriting : Bool) :
    Agrees (link.sendInLoop isWriting) waiting letters := by
  rcases agrees.tells with ⟨told, late, tells⟩
  rcases tells.sendInLoop isWriting with ⟨more, tellsMore⟩
  exact agrees.goes (sendInLoop_kept isWriting link) ⟨more, [], tellsMore⟩

end Steps

end Link

namespace Gateway

/-! ## Sending -/

section Sending

variable [ProtobufRuntime] [Zlib] {letter : Letter}

/-- A letter is sent as its frame, unless it is too long. -/
theorem send_letter (letter : Letter) :
    ProtobufCodec.send letter.message =
      if letter.message.serialize.length < sizeLimit then
        some (ProtobufCodec.frame letter.message)
      else none := by
  split_ifs with short
  · refine ProtobufCodec.send_eq ?_ short
    cases letter with
    | response entry =>
        change (ascii "mq.basicCommonResponse").length + 1 < _
        have length : (ascii "mq.basicCommonResponse").length = 22 := by decide
        omega
    | push conn cid delivery =>
        change (ascii "mq.basicConsumeResponse").length + 1 < _
        have length : (ascii "mq.basicConsumeResponse").length = 23 := by decide
        omega
  · simp [ProtobufCodec.send, ProtobufCodec.fillEmptyBuffer, guard, short]

theorem tell_nil (link : Link) : link.tell [] = link := rfl

theorem tell_append (first second : List Letter) (link : Link) :
    (link.tell first).tell second = link.tell (first ++ second) :=
  List.foldl_append.symm

/-- A letter that is short enough is sent to its connection. -/
theorem post_short (short : letter.message.serialize.length < sizeLimit) (gateway : Gateway) :
    gateway.post letter = some { gateway with
      links := fun conn => (gateway.links conn).map (Link.tell (lettersTo conn [letter])) } := by
  have untold (link : Link) : Link.tell [] link = link := tell_nil link
  rw [post, send_letter, if_pos short, Option.map_some]
  cases named : letter.conn with
  | none =>
      simp only [lettersTo, List.filter_cons, named, reduceCtorEq, decide_false, List.filter_nil,
        Bool.false_eq_true, if_false, funext untold, Option.map_id']
  | some conn =>
      simp only [withLink]
      congr 2
      funext other
      by_cases same : other = conn
      · subst same
        simp only [Function.update_self, lettersTo, List.filter_cons, named, decide_true, if_true,
          List.filter_nil]
        rfl
      · simp only [Function.update_of_ne same, lettersTo, List.filter_cons, named,
          Option.some.injEq, Ne.symm same, decide_false, Bool.false_eq_true, if_false,
          List.filter_nil, funext untold, Option.map_id']

/-- Letters that are short enough are sent in their order, each to its connection. -/
theorem post_all (letters : List Letter) (gateway : Gateway) :
    (∃ letter ∈ letters, ¬ letter.message.serialize.length < sizeLimit) ∧
        letters.foldlM post gateway = none ∨
      (∀ letter ∈ letters, letter.message.serialize.length < sizeLimit) ∧
        letters.foldlM post gateway = some { gateway with
          links := fun conn => (gateway.links conn).map (Link.tell (lettersTo conn letters)) } := by
  induction letters generalizing gateway with
  | nil =>
      refine Or.inr ⟨fun _ member => absurd member List.not_mem_nil, ?_⟩
      have untold (link : Link) : Link.tell [] link = link := tell_nil link
      simp only [List.foldlM_nil, lettersTo, List.filter_nil, funext untold, Option.map_id']
      rfl
  | cons letter rest inductionHypothesis =>
      rw [List.foldlM_cons]
      by_cases short : letter.message.serialize.length < sizeLimit
      · rw [post_short short]
        rcases inductionHypothesis { gateway with
            links := fun conn => (gateway.links conn).map (Link.tell (lettersTo conn [letter])) }
          with ⟨⟨other, member, long⟩, none⟩ | ⟨all, done⟩
        · exact Or.inl ⟨⟨other, List.mem_cons_of_mem _ member, long⟩, none⟩
        · refine Or.inr ⟨List.forall_mem_cons.mpr ⟨short, all⟩, done.trans ?_⟩
          congr 2
          funext conn
          simp only [Option.map_map]
          refine congrArg (fun change => (gateway.links conn).map change) (funext fun link => ?_)
          rw [Function.comp_apply, tell_append, ← lettersTo_append]
          rfl
      · refine Or.inl ⟨⟨letter, List.mem_cons_self, short⟩, ?_⟩
        rw [post, send_letter, if_neg short]
        rfl

end Sending

/-! ## All connections -/

section Serving

variable [ProtobufRuntime] [Zlib]

/-- What the server has made of the bytes: each connection agrees with what has arrived on
it, and what was given to them are the responses of the desk and what the callbacks push, in
their orders. -/
structure Serves (gateway : Gateway) : Prop where
  links : ∀ conn link, gateway.links conn = some link →
    link.Agrees (gateway.waiting conn) (lettersTo conn gateway.posted)
  responses : gateway.posted.filterMap Letter.answer = gateway.desk.answered
  pushes : gateway.posted.filterMap Letter.delivery = gateway.desk.machine.sent

/-- The connection of a request is there, and its ids are short. -/
structure Reaches (gateway : Gateway) (ticket : Ticket) : Prop where
  linked : (gateway.links ticket.conn).isSome = true
  rid : ticket.rid.length ≤ 64 * 1024 * 1024
  cid : ticket.cid.length ≤ 64 * 1024 * 1024

/-- And nothing is for a connection that never was. -/
structure Sound (gateway : Gateway) : Prop extends Serves gateway where
  reading : ∀ entry ∈ gateway.reading,
    (∃ link, gateway.links entry.1 = some link ∧ link.state ≠ .disconnected) ∧
      ∀ packet, requestOf entry.2 = some packet →
        packet.rid.length ≤ 64 * 1024 * 1024 ∧ packet.cid.length ≤ 64 * 1024 * 1024
  inHand : ∀ ticket ∈ gateway.desk.inHand, gateway.Reaches ticket
  addressed : ∀ letter ∈ gateway.posted, ∀ conn ∈ letter.conn, (gateway.links conn).isSome = true
  short : ∀ letter ∈ gateway.posted, letter.message.serialize.length < sizeLimit

/-- The requests of a connection that the machine was given. -/
def servedOn (gateway : Gateway) (conn : Nat) : List Packet :=
  ((gateway.links conn).map Link.served).getD []

/-- The server knows the connections that are there and not down. -/
def Known (gateway : Gateway) : Prop :=
  ∀ conn, conn ∈ gateway.desk.machine.server.connections ↔
    ∃ link, gateway.links conn = some link ∧ link.state ≠ .disconnected

section Acting

variable {gateway : Gateway}

omit [ProtobufRuntime] [Zlib] in
/-- What is pushed goes to a connection that the server knows. -/
theorem push_known {machine : Machine} {delivery : Delivery} {conn : Nat}
    (goes : (push machine delivery).conn = some conn) : conn ∈ machine.server.connections := by
  change Option.map Sigma.fst _ = some conn at goes
  rcases Option.map_eq_some_iff.mp goes with ⟨entry, found, rfl⟩
  exact AList.mem_keys.mpr (List.mem_keys_of_mem (List.mem_of_find?_eq_some found))

/-- What is sent is what the desk has answered and the callbacks have pushed since. -/
theorem Sound.sends (sound : gateway.Sound) {desk : Desk} {sending : List Letter}
    (answered : desk.answered = gateway.desk.answered ++ sending.filterMap Letter.answer)
    (sent : desk.machine.sent = gateway.desk.machine.sent ++ sending.filterMap Letter.delivery)
    (inHand : ∀ ticket ∈ desk.inHand, gateway.Reaches ticket)
    (addressed : ∀ letter ∈ sending, ∀ conn ∈ letter.conn, (gateway.links conn).isSome = true)
    (short : ∀ letter ∈ sending, letter.message.serialize.length < sizeLimit) :
    Sound {
      desk := desk
      links := fun conn => (gateway.links conn).map (Link.tell (lettersTo conn sending))
      reading := gateway.reading
      posted := gateway.posted ++ sending } := by
  have stays (conn : Nat) (isSome : (gateway.links conn).isSome = true) (change : Link → Link) :
      ((gateway.links conn).map change).isSome = true := by
    rw [Option.isSome_map]
    exact isSome
  refine ⟨⟨fun conn link found => ?_, ?_, ?_⟩, fun entry member => ?_, fun ticket there => ?_,
    fun letter member conn goes => ?_,
    fun letter member => (List.mem_append.mp member).elim (sound.short letter) (short letter)⟩
  · rcases Option.map_eq_some_iff.mp found with ⟨before, there, rfl⟩
    change Link.Agrees _ _ (lettersTo conn (gateway.posted ++ sending))
    rw [lettersTo_append]
    exact (sound.links conn before there).tell _
  · rw [List.filterMap_append, sound.responses, answered]
  · rw [List.filterMap_append, sound.pushes, sent]
  · rcases sound.reading entry member with ⟨⟨link, there, alive⟩, short⟩
    refine ⟨⟨_, congrArg (Option.map _) there, ?_⟩, short⟩
    rw [(Link.tell_kept _ link).2.2.2]
    exact alive
  · have reaches := inHand ticket there
    exact ⟨stays _ reaches.linked _, reaches.rid, reaches.cid⟩
  · rcases List.mem_append.mp member with old | new
    · exact stays _ (sound.addressed letter old conn goes) _
    · exact stays _ (addressed letter new conn goes) _

variable [Protobuf]

/-- The machine takes a step: it stops, a push is too long, or what it answers and pushes
is sent. -/
theorem Sound.act (sound : gateway.Sound) {event : Machine.Event}
    (asked : ∀ conn chance packet, event.move = .packet conn chance packet →
      gateway.Reaches ⟨conn, packet.rid, packet.cid⟩)
    (housed : ∀ conn ∈ gateway.desk.machine.server.connections,
      (gateway.links conn).isSome = true) :
    (∃ fault, gateway.desk.perform event = .error fault ∧
        gateway.act event = .error (.program fault)) ∨
      ∃ desk, gateway.desk.perform event = .ok desk ∧
        ((∃ letter ∈ letters gateway.desk desk, letter.delivery.isSome = true ∧
            ¬ letter.message.serialize.length < sizeLimit) ∧
            gateway.act event = .error .assertion ∨
          ∃ next, gateway.act event = .ok next ∧ next.desk = desk ∧ next.Sound ∧
            ∀ conn, (next.links conn).map (fun link => (link.state, link.served)) =
              (gateway.links conn).map fun link => (link.state, link.served)) := by
  unfold Gateway.act
  cases performed : gateway.desk.perform event with
  | error fault => exact Or.inl ⟨fault, rfl, rfl⟩
  | ok desk =>
      refine Or.inr ⟨desk, rfl, ?_⟩
      rcases Desk.answered_perform performed sound.inHand asked with
        ⟨⟨more, answered, reached⟩, inHand⟩
      rcases Machine.sent_perform (Desk.perform_eq_ok performed).1 with ⟨called, sent⟩
      have written : letters gateway.desk desk =
          more.map .response ++ called.map (push gateway.desk.machine) := by
        rw [letters, answered, List.drop_left, ← sent, List.drop_left]
      simp only
      rcases post_all (letters gateway.desk desk) { gateway with
          desk := desk, posted := gateway.posted ++ letters gateway.desk desk } with
        ⟨⟨letter, member, long⟩, none⟩ | ⟨short, done⟩
      · refine Or.inl ⟨⟨letter, member, ?_, long⟩, by rw [none]⟩
        rw [written] at member
        rcases List.mem_append.mp member with response | pushed
        · rcases List.mem_map.mp response with ⟨entry, there, rfl⟩
          have reaches := reached entry there
          exact absurd (response_sendable entry.2 reaches.rid reaches.cid).2 long
        · rcases List.mem_map.mp pushed with ⟨delivery, there, rfl⟩
          rfl
      · refine Or.inr ⟨_, by rw [done], rfl, ?_, fun conn => ?_⟩
        · rw [written] at short ⊢
          refine sound.sends ?_ ?_ inHand (fun letter member conn goes => ?_) short
          · rw [answered]
            simp [List.filterMap_append, List.filterMap_map, Function.comp_def, push, Letter.answer]
          · rw [← sent]
            simp [List.filterMap_append, List.filterMap_map, Function.comp_def, push,
              Letter.delivery]
          · rcases List.mem_append.mp member with response | pushed
            · rcases List.mem_map.mp response with ⟨entry, there, rfl⟩
              cases goes
              exact (reached entry there).linked
            · rcases List.mem_map.mp pushed with ⟨delivery, there, rfl⟩
              exact housed conn (push_known goes)
        · simp only [Option.map_map]
          refine congrArg (fun change => (gateway.links conn).map change) (funext fun link => ?_)
          rcases Link.tell_kept (lettersTo conn (letters gateway.desk desk)) link with
            ⟨_, served, _, state⟩
          exact Prod.ext state served

end Acting

section Turning

variable {gateway : Gateway}

/-- Other links and call backs, as long as no connection disappears. -/
theorem Sound.turned (sound : gateway.Sound) {links : Nat → Option Link}
    {reading : List (Nat × ProtobufCodec.Callback)}
    (kept : ∀ conn, (gateway.links conn).isSome = true → (links conn).isSome = true)
    (agrees : ∀ conn link, links conn = some link →
      link.Agrees ({ gateway with reading := reading }.waiting conn)
        (lettersTo conn gateway.posted))
    (found : ∀ entry ∈ reading, (∃ link, links entry.1 = some link ∧ link.state ≠ .disconnected) ∧
      ∀ packet, requestOf entry.2 = some packet →
        packet.rid.length ≤ 64 * 1024 * 1024 ∧ packet.cid.length ≤ 64 * 1024 * 1024) :
    Sound { gateway with links := links, reading := reading } where
  links := agrees
  responses := sound.responses
  pushes := sound.pushes
  reading := found
  inHand ticket there :=
    have reaches := sound.inHand ticket there
    ⟨kept _ reaches.linked, reaches.rid, reaches.cid⟩
  addressed letter member conn goes := kept _ (sound.addressed letter member conn goes)
  short := sound.short

/-- The server is going to know the connections that are there and not down. -/
def Foresees (ready : Gateway) (move : Option Machine.Event) : Prop :=
  ∀ conn, (((∃ event ∈ move, event.move = .connect conn) ∨
      conn ∈ ready.desk.machine.server.connections) ∧
        ¬ ∃ event ∈ move, event.move = .disconnect conn) ↔
    ∃ link, ready.links conn = some link ∧ link.state ≠ .disconnected

/-- What the event loop does before the machine takes its step. -/
structure Prepares (gateway ready : Gateway) (move : Option Machine.Event) : Prop where
  desk : ready.desk = gateway.desk
  sound : ready.Sound
  foresees : ready.Foresees move
  idle : ∀ event ∈ move, ∀ conn, event.move = .connect conn ∨ event.move = .disconnect conn →
    ready.desk.machine.isIdle = true
  asked : ∀ event ∈ move, ∀ conn chance packet, event.move = .packet conn chance packet →
    ready.Reaches ⟨conn, packet.rid, packet.cid⟩
  served : ∀ conn, ready.servedOn conn = gateway.servedOn conn ++
    (move.bind gateway.desk.machine.takes).toList.filterMap (Server.Happening.packetOn conn)
  housed : ∀ conn ∈ ready.desk.machine.server.connections, (ready.links conn).isSome = true

omit [ProtobufRuntime] [Zlib] in
theorem Known.foresees (known : gateway.Known) : gateway.Foresees none := by
  intro conn
  rw [← known conn]
  simp

omit [ProtobufRuntime] [Zlib] in
theorem Known.housed (known : gateway.Known) (conn : Nat)
    (there : conn ∈ gateway.desk.machine.server.connections) :
    (gateway.links conn).isSome = true := by
  rcases (known conn).mp there with ⟨link, found, _⟩
  rw [found]
  rfl

/-- The machine takes no step. -/
theorem Prepares.quiet {ready : Gateway} (desk : ready.desk = gateway.desk) (sound : ready.Sound)
    (foresees : ready.Foresees none)
    (served : ∀ conn, ready.servedOn conn = gateway.servedOn conn)
    (housed : ∀ conn ∈ ready.desk.machine.server.connections,
      (ready.links conn).isSome = true) : gateway.Prepares ready none :=
  ⟨desk, sound, foresees, fun _ moves => absurd moves (Option.not_mem_none _),
    fun _ moves => absurd moves (Option.not_mem_none _),
    fun conn => (served conn).trans (List.append_nil _).symm, housed⟩

/-- Nothing has to be prepared. -/
theorem Sound.prepares_none (sound : gateway.Sound) (known : gateway.Known) :
    gateway.Prepares gateway none :=
  .quiet rfl sound known.foresees (fun _ => rfl) known.housed

/-- A step of the request in hand, or of a task. -/
theorem Sound.prepares_some (sound : gateway.Sound) (known : gateway.Known)
    {event : Machine.Event} (proceeds : event.move = .proceed ∨ ∃ index, event.move = .work index) :
    gateway.Prepares gateway (some event) := by
  have other (move : Machine.Move) (isOther : move ≠ .proceed ∧ ∀ index, move ≠ .work index) :
      event.move ≠ move := by
    rintro rfl
    rcases proceeds with same | ⟨index, same⟩
    · exact isOther.1 same
    · exact isOther.2 index same
  refine ⟨rfl, sound, fun conn => ?_, fun one same conn moves => ?_,
    fun one same conn chance packet moves => ?_, fun conn => ?_, known.housed⟩
  · rw [← known conn]
    simp [other (.connect conn) (by simp), other (.disconnect conn) (by simp)]
  · cases same
    rcases moves with moves | moves
    · exact absurd moves (other _ (by simp))
    · exact absurd moves (other _ (by simp))
  · cases same
    exact absurd moves (other _ (by simp))
  · have nothing : gateway.desk.machine.takes event = none := by
      unfold Machine.takes
      rcases proceeds with same | ⟨index, same⟩
      · simp [same]
      · simp [same]
    simp [nothing]

/-- A connection is established. -/
theorem Sound.prepares_connect (sound : gateway.Sound) (known : gateway.Known) {conn : Nat}
    (free : gateway.isFree = true) (absent : gateway.links conn = none) :
    gateway.Prepares { gateway with links := Function.update gateway.links conn (some {}) }
      (some ⟨.connect conn, []⟩) := by
  rw [isFree, Bool.and_eq_true, List.isEmpty_iff] at free
  have kept (other : Nat) (there : (gateway.links other).isSome = true) :
      (Function.update gateway.links conn (some {}) other).isSome = true := by
    rw [Function.update_apply]
    split_ifs
    · rfl
    · exact there
  have unwritten : lettersTo conn gateway.posted = [] := by
    refine List.filter_eq_nil_iff.mpr fun letter member goes => ?_
    have there := sound.addressed letter member conn (of_decide_eq_true goes)
    rw [absent] at there
    cases there
  refine ⟨rfl, sound.turned kept (fun other link found => ?_) (fun entry member => ?_),
    fun other => ?_, fun one same _ _ => free.1, fun one same other chance packet moves => ?_,
    fun other => ?_, fun other there => kept other (known.housed other there)⟩
  · rw [Function.update_apply] at found
    split_ifs at found with same
    · subst same
      cases found
      have nothing : gateway.waiting other = [] := by
        rw [waiting, free.2]
        rfl
      change Link.Agrees {} (gateway.waiting other) _
      rw [nothing, unwritten]
      exact Link.agrees_new
    · exact sound.links other link found
  · rw [free.2] at member
    cases member
  · change _ ↔ ∃ link, Function.update gateway.links conn (some {}) other = some link ∧ _
    rw [Function.update_apply]
    split_ifs with same
    · refine iff_of_true ⟨Or.inl ⟨_, rfl, by rw [same]⟩, ?_⟩ ⟨{}, rfl, fun other => by cases other⟩
      rintro ⟨event, there, moves⟩
      cases there
      cases moves
    · rw [← known other]
      simp [Ne.symm same]
  · cases same
    cases moves
  · have before : gateway.servedOn conn = [] := by
      rw [servedOn, absent]
      rfl
    simp only [Option.bind_some, Machine.takes, free.1, if_true, Option.toList_some,
      List.filterMap_cons, Server.Happening.packetOn, List.filterMap_nil, List.append_nil]
    change ((Function.update gateway.links conn (some {}) other).map Link.served).getD [] = _
    rw [Function.update_apply]
    split_ifs with same
    · rw [same, before]
      rfl
    · rfl

omit [ProtobufRuntime] [Zlib] in
theorem links_withLink (gateway : Gateway) (conn : Nat) (change : Link → Link) (other : Nat) :
    (gateway.withLink conn change).links other =
      if other = conn then (gateway.links other).map change else gateway.links other := by
  change Function.update gateway.links conn _ other = _
  rw [Function.update_apply]
  split_ifs with same
  · rw [same]
  · rfl

omit [ProtobufRuntime] [Zlib] in
/-- A connection that was changed is there if it was. -/
theorem isSome_withLink (gateway : Gateway) (conn : Nat) (change : Link → Link) (other : Nat)
    (there : (gateway.links other).isSome = true) :
    ((gateway.withLink conn change).links other).isSome = true := by
  rw [links_withLink]
  split_ifs
  · rw [Option.isSome_map]
    exact there
  · exact there

omit [ProtobufRuntime] [Zlib] in
/-- A change that leaves what was served. -/
theorem servedOn_withLink (gateway : Gateway) (conn : Nat) (change : Link → Link)
    (same : ∀ link, (change link).served = link.served) (other : Nat) :
    (gateway.withLink conn change).servedOn other = gateway.servedOn other := by
  rw [servedOn, links_withLink]
  split_ifs
  · rw [Option.map_map, show Link.served ∘ change = Link.served from funext same]
    rfl
  · rfl

/-- A connection goes down. -/
theorem Sound.prepares_disconnect (sound : gateway.Sound) (known : gateway.Known) {conn : Nat}
    (free : gateway.isFree = true) :
    gateway.Prepares (gateway.withLink conn Link.close) (some ⟨.disconnect conn, []⟩) := by
  rw [isFree, Bool.and_eq_true, List.isEmpty_iff] at free
  refine ⟨rfl, sound.turned (gateway.isSome_withLink conn Link.close) (fun other link found => ?_)
    (fun entry member => ?_), fun other => ?_, fun one same _ _ => free.1,
    fun one same other chance packet moves => ?_, fun other => ?_,
    fun other there => gateway.isSome_withLink conn Link.close other (known.housed other there)⟩
  · change (gateway.withLink conn Link.close).links other = some link at found
    rw [links_withLink] at found
    split_ifs at found with same
    · rcases Option.map_eq_some_iff.mp found with ⟨before, there, rfl⟩
      exact (sound.links other before there).close
    · exact sound.links other link found
  · rw [free.2] at member
    cases member
  · rw [links_withLink]
    split_ifs with same
    · refine iff_of_false (fun both => both.2 ⟨_, rfl, by rw [same]⟩) ?_
      rintro ⟨link, there, alive⟩
      rcases Option.map_eq_some_iff.mp there with ⟨before, _, rfl⟩
      exact alive rfl
    · rw [← known other]
      simp [withLink, Ne.symm same]
  · cases same
    cases moves
  · simp only [Option.bind_some, Machine.takes, free.1, if_true, Option.toList_some,
      List.filterMap_cons, Server.Happening.packetOn, List.filterMap_nil, List.append_nil]
    exact gateway.servedOn_withLink conn Link.close (fun _ => rfl) other

omit [ProtobufRuntime] [Zlib] in
/-- A change that leaves it open whether a connection is down. -/
theorem Known.foresees_withLink (known : gateway.Known) {conn : Nat} {change : Link → Link}
    {reading : List (Nat × ProtobufCodec.Callback)} {move : Option Machine.Event}
    (alive : ∀ link, (change link).state ≠ .disconnected ↔ link.state ≠ .disconnected)
    (neither : ∀ event ∈ move, ∀ other,
      event.move ≠ .connect other ∧ event.move ≠ .disconnect other) :
    Foresees { gateway.withLink conn change with reading := reading } move := by
  intro other
  have none : ¬ (∃ event ∈ move, event.move = .connect other) ∧
      ¬ ∃ event ∈ move, event.move = .disconnect other :=
    ⟨fun ⟨event, there, moves⟩ => (neither event there other).1 moves,
      fun ⟨event, there, moves⟩ => (neither event there other).2 moves⟩
  change _ ↔ ∃ link, (gateway.withLink conn change).links other = some link ∧ _
  refine Iff.trans ?_ ((known other).trans ?_)
  · simp only [none, false_or, not_false_eq_true, and_true]
    rfl
  · rw [links_withLink]
    split_ifs with same
    · constructor
      · rintro ⟨link, there, up⟩
        exact ⟨change link, congrArg (Option.map change) there, (alive link).mpr up⟩
      · rintro ⟨link, there, up⟩
        rcases Option.map_eq_some_iff.mp there with ⟨before, found, rfl⟩
        exact ⟨before, found, (alive before).mp up⟩
    · exact Iff.rfl

/-- What is queued for a connection is written. -/
theorem Sound.prepares_writing (sound : gateway.Sound) (known : gateway.Known) (conn : Nat)
    (isWriting : Bool) :
    gateway.Prepares (gateway.withLink conn (Link.sendInLoop isWriting)) none := by
  have up (link : Link) :
      (link.sendInLoop isWriting).state ≠ .disconnected ↔ link.state ≠ .disconnected := by
    rw [(Link.sendInLoop_kept isWriting link).2.2.2]
  refine .quiet rfl (sound.turned (gateway.isSome_withLink conn _) (fun other link found => ?_)
      fun entry member => ⟨?_, (sound.reading entry member).2⟩)
    (known.foresees_withLink up fun _ moves => absurd moves (Option.not_mem_none _))
    (gateway.servedOn_withLink conn _ fun link => (Link.sendInLoop_kept isWriting link).2.1)
    fun other there => gateway.isSome_withLink conn _ other (known.housed other there)
  · change (gateway.withLink conn _).links other = some link at found
    rw [links_withLink] at found
    split_ifs at found with same
    · rcases Option.map_eq_some_iff.mp found with ⟨before, there, rfl⟩
      exact (sound.links other before there).sendInLoop isWriting
    · exact sound.links other link found
  · rcases (sound.reading entry member).1 with ⟨link, there, alive⟩
    change ∃ link, (gateway.withLink conn _).links entry.1 = some link ∧ _
    rw [links_withLink]
    split_ifs
    · exact ⟨_, congrArg (Option.map _) there, (up link).mpr alive⟩
    · exact ⟨link, there, alive⟩

/-- A piece arrives, and the codec goes through the buffer. -/
theorem Sound.prepares_arrival (reads : RuntimeReads) (cuts : RuntimeCuts) (sound : gateway.Sound)
    (known : gateway.Known) {conn : Nat} {link : Link} {piece : Bytes} {input : Buffer}
    (free : gateway.isFree = true) (found : gateway.links conn = some link)
    (alive : link.state ≠ .disconnected)
    (kept : input.contents = (ProtobufCodec.scanner.receive link.input.contents piece).rest) :
    gateway.Prepares { gateway.withLink conn (Link.receive piece input) with
      reading := (ProtobufCodec.callbacks
        (ProtobufCodec.scanner.receive link.input.contents piece)).map fun callback =>
          (conn, callback) } none := by
  rw [isFree, Bool.and_eq_true, List.isEmpty_iff] at free
  have nothing (other : Nat) : gateway.waiting other = [] := by
    rw [waiting, free.2]
    rfl
  refine .quiet rfl (sound.turned (gateway.isSome_withLink conn _) (fun other next there => ?_)
      fun entry member => ?_)
    (known.foresees_withLink (fun _ => Iff.rfl) fun _ moves =>
      absurd moves (Option.not_mem_none _))
    (gateway.servedOn_withLink conn (Link.receive piece input) fun _ => rfl)
    fun other there => gateway.isSome_withLink conn _ other (known.housed other there)
  · rw [links_withLink] at there
    split_ifs at there with same
    · subst same
      rw [found] at there
      cases there
      have agrees := sound.links other link found
      rw [nothing] at agrees
      have waits : ({ gateway with reading := (ProtobufCodec.callbacks
          (ProtobufCodec.scanner.receive link.input.contents piece)).map fun callback =>
            (other, callback) } : Gateway).waiting other =
          ProtobufCodec.callbacks (ProtobufCodec.scanner.receive link.input.contents piece) := by
        simp [waiting, List.filter_map, Function.comp_def]
      rw [waits]
      exact agrees.receive alive kept
    · have waits : ({ gateway with reading := (ProtobufCodec.callbacks
          (ProtobufCodec.scanner.receive link.input.contents piece)).map fun callback =>
            (conn, callback) } : Gateway).waiting other = gateway.waiting other := by
        rw [nothing]
        simp [waiting, List.filter_map, Function.comp_def, Ne.symm same]
      rw [waits]
      exact sound.links other next there
  · rcases List.mem_map.mp member with ⟨callback, there, rfl⟩
    refine ⟨⟨link.receive piece input, ?_, alive⟩, fun packet request => ?_⟩
    · change (gateway.withLink conn _).links conn = _
      rw [links_withLink, if_pos rfl, found]
      rfl
    · cases callback with
      | error errorCode => cases request
      | message message =>
          have item : message ∈
              (ProtobufCodec.scanner.receive link.input.contents piece).items := by
            rcases List.mem_append.mp there with items | faults
            · rcases List.mem_map.mp items with ⟨other, isItem, same⟩
              cases same
              exact isItem
            · rw [Option.mem_toList, Option.map_eq_some_iff] at faults
              rcases faults with ⟨_, _, same⟩
              cases same
          have ids := item_ids reads cuts item request
          exact ⟨ids.1, ids.2.1⟩

/-- The codec hands on what it has found: a request, or what shuts the connection down. -/
theorem Sound.prepares_callback (sound : gateway.Sound) (known : gateway.Known)
    (idle : gateway.desk.machine.isIdle = true) {conn : Nat} {callback : ProtobufCodec.Callback}
    {rest : List (Nat × ProtobufCodec.Callback)}
    (reading : gateway.reading = (conn, callback) :: rest) (chance : Chance)
    (script : List Outcome) :
    gateway.Prepares
      (onCallback { gateway with reading := rest } conn callback chance script).1
      (onCallback { gateway with reading := rest } conn callback chance script).2 := by
  have all := sound.reading
  rw [reading, List.forall_mem_cons] at all
  rcases all.1 with ⟨⟨link, found, alive⟩, short⟩
  have there : conn ∈ gateway.desk.machine.server.connections :=
    (known conn).mpr ⟨link, found, alive⟩
  have waits (other : Nat) : gateway.waiting other =
      (if conn = other then [callback] else []) ++
        ({ gateway with reading := rest } : Gateway).waiting other := by
    rw [waiting, reading, List.filter_cons]
    by_cases same : conn = other
    · simp [same, waiting]
    · simp [same, waiting]
  have changed {change : Link → Link}
      (agrees : ∀ before, gateway.links conn = some before →
        (change before).Agrees (({ gateway with reading := rest } : Gateway).waiting conn)
          (lettersTo conn gateway.posted))
      (up : ∀ link, (change link).state ≠ .disconnected ↔ link.state ≠ .disconnected) :
      Sound { gateway.withLink conn change with reading := rest } := by
    refine sound.turned (gateway.isSome_withLink conn change) (fun other next foundNext => ?_)
      fun entry member => ⟨?_, (all.2 entry member).2⟩
    · change (gateway.withLink conn change).links other = some next at foundNext
      rw [links_withLink] at foundNext
      split_ifs at foundNext with same
      · subst same
        rcases Option.map_eq_some_iff.mp foundNext with ⟨before, isIt, rfl⟩
        exact agrees before isIt
      · have before := sound.links other next foundNext
        rw [waits, if_neg (Ne.symm same), List.nil_append] at before
        exact before
    · rcases (all.2 entry member).1 with ⟨one, isIt, oneUp⟩
      rw [links_withLink]
      split_ifs
      · exact ⟨change one, congrArg (Option.map change) isIt, (up one).mpr oneUp⟩
      · exact ⟨one, isIt, oneUp⟩
  have housed (change : Link → Link) (other : Nat)
      (isThere : other ∈ gateway.desk.machine.server.connections) :
      ((gateway.withLink conn change).links other).isSome = true :=
    gateway.isSome_withLink conn change other (known.housed other isThere)
  unfold onCallback
  cases request : requestOf callback with
  | none =>
      have up (link : Link) : link.shutdown.state ≠ .disconnected ↔ link.state ≠ .disconnected := by
        unfold Link.shutdown
        split_ifs with connected
        · rw [connected]
          exact iff_of_true (fun other => by cases other) fun other => by cases other
        · exact Iff.rfl
      refine .quiet rfl (changed (fun before isIt => ?_) up)
        (known.foresees_withLink up fun _ moves => absurd moves (Option.not_mem_none _))
        (gateway.servedOn_withLink conn Link.shutdown fun link => ?_) (housed _)
      · have agrees := sound.links conn before isIt
        rw [waits, if_pos rfl] at agrees
        exact agrees.shutdown request
      · unfold Link.shutdown
        split_ifs <;> rfl
  | some packet =>
      have isKnown : (gateway.desk.machine.server.connections.lookup conn).isSome = true :=
        AList.lookup_isSome.mpr there
      simp only [isKnown, if_true]
      refine ⟨rfl, changed (fun before isIt => ?_) fun _ => Iff.rfl,
        known.foresees_withLink (fun _ => Iff.rfl) (fun event moves other => ?_),
        fun event moves other either => ?_, fun event moves other otherChance request' same => ?_,
        fun other => ?_, housed _⟩
      · have agrees := sound.links conn before isIt
        rw [waits, if_pos rfl] at agrees
        exact agrees.serve request
      · cases moves
        exact ⟨Machine.Move.noConfusion, Machine.Move.noConfusion⟩
      · cases moves
        rcases either with same | same <;> cases same
      · cases moves
        cases same
        have ids := short packet request
        exact ⟨gateway.isSome_withLink conn _ conn (by rw [found]; rfl), ids.1, ids.2⟩
      · simp only [Option.bind_some, Machine.takes, idle, if_true, Option.toList_some,
          List.filterMap_cons, Server.Happening.packetOn, List.filterMap_nil]
        change ((gateway.withLink conn (Link.serve packet)).servedOn other) = _
        rw [servedOn, links_withLink]
        by_cases same : other = conn
        · rw [if_pos same, same, servedOn, found, if_pos rfl]
          rfl
        · rw [if_neg same, if_neg (Ne.symm same), List.append_nil]
          rfl

/-- The event loop can turn to what happens: no assertion of the buffer fails. -/
theorem Sound.turn (reads : RuntimeReads) (cuts : RuntimeCuts) (sound : gateway.Sound)
    (known : gateway.Known) (event : Event) :
    ∃ ready move, gateway.turn event = .ok (ready, move) ∧ gateway.Prepares ready move := by
  have stays : gateway.Prepares gateway none := sound.prepares_none known
  cases event with
  | connect conn =>
      simp only [Gateway.turn]
      split_ifs with taken
      · rw [Bool.and_eq_true, Option.isNone_iff_eq_none] at taken
        exact ⟨_, _, rfl, sound.prepares_connect known taken.1 taken.2⟩
      · exact ⟨_, _, rfl, stays⟩
  | disconnect conn =>
      simp only [Gateway.turn]
      split_ifs with free
      · exact ⟨_, _, rfl, sound.prepares_disconnect known free⟩
      · exact ⟨_, _, rfl, stays⟩
  | arrival conn piece =>
      cases found : gateway.links conn with
      | none => exact ⟨gateway, none, by simp only [Gateway.turn, found], stays⟩
      | some link =>
          simp only [Gateway.turn, found]
          split_ifs with taken
          · rw [Bool.and_eq_true, decide_eq_true_iff] at taken
            rcases ProtobufCodec.arrive_eq link.input piece with ⟨input, arrived, kept⟩
            rw [arrived]
            exact ⟨_, _, rfl,
              sound.prepares_arrival reads cuts known taken.1 found taken.2 kept⟩
          · exact ⟨_, _, rfl, stays⟩
  | writing conn isWriting =>
      simp only [Gateway.turn]
      split_ifs with free
      · exact ⟨_, _, rfl, sound.prepares_writing known conn isWriting⟩
      · exact ⟨_, _, rfl, stays⟩
  | callback chance script =>
      cases idle : gateway.desk.machine.isIdle with
      | false => exact ⟨gateway, none, by simp only [Gateway.turn, idle], stays⟩
      | true =>
          cases reading : gateway.reading with
          | nil => exact ⟨gateway, none, by simp only [Gateway.turn, idle, reading], stays⟩
          | cons entry rest =>
              exact ⟨_, _, by simp only [Gateway.turn, idle, reading],
                sound.prepares_callback known idle reading chance script⟩
  | proceed script => exact ⟨_, _, rfl, sound.prepares_some known (Or.inl rfl)⟩
  | work index script => exact ⟨_, _, rfl, sound.prepares_some known (Or.inr ⟨index, rfl⟩)⟩

end Turning

/-! ## Runs -/

section Runs

variable [Protobuf] {gateway next : Gateway}

/-- An event stops the program: the machine stops in the step that the event brings, or a
callback pushes a message that is too long to be written. -/
inductive Stops (gateway : Gateway) (event : Event) : GatewayFault → Prop where
  | program {ready : Gateway} {move : Machine.Event} {fault : Fault}
      (turned : gateway.turn event = .ok (ready, some move)) (serves : ready.Serves)
      (stops : gateway.desk.perform move = .error fault) : Stops gateway event (.program fault)
  | assertion {ready : Gateway} {move : Machine.Event} {desk : Desk} {letter : Letter}
      (turned : gateway.turn event = .ok (ready, some move)) (serves : ready.Serves)
      (performed : gateway.desk.perform move = .ok desk)
      (written : letter ∈ letters gateway.desk desk) (pushed : letter.delivery.isSome = true)
      (long : ¬ letter.message.serialize.length < sizeLimit) : Stops gateway event .assertion

/-- After the step of the machine the server knows the connections again. -/
theorem Foresees.known {ready : Gateway} {event : Machine.Event}
    (prepares : gateway.Prepares ready (some event))
    (performed : ready.desk.perform event = .ok next.desk)
    (states : ∀ conn, (next.links conn).map Link.state = (ready.links conn).map Link.state) :
    next.Known := by
  intro conn
  have knows := Machine.connections_perform (Desk.perform_eq_ok performed).1 conn
  have idle (move : event.move = .connect conn ∨ event.move = .disconnect conn) :
      ready.desk.machine.isIdle = true := prepares.idle event rfl conn move
  have foresees := prepares.foresees conn
  simp only [Option.mem_some_iff, exists_eq_left'] at foresees
  have same : (∃ link, next.links conn = some link ∧ link.state ≠ .disconnected) ↔
      ∃ link, ready.links conn = some link ∧ link.state ≠ .disconnected := by
    have state := states conn
    constructor
    all_goals
      rintro ⟨link, found, alive⟩
      rw [found] at state
    · rcases Option.map_eq_some_iff.mp state.symm with ⟨other, there, isIt⟩
      exact ⟨other, there, by rw [isIt]; exact alive⟩
    · rcases Option.map_eq_some_iff.mp state with ⟨other, there, isIt⟩
      exact ⟨other, there, by rw [isIt]; exact alive⟩
  rw [same, ← foresees, knows]
  refine and_congr (or_congr ?_ Iff.rfl) (not_congr ?_)
  · exact and_iff_right_of_imp fun move => idle (Or.inl move)
  · exact and_iff_right_of_imp fun move => idle (Or.inr move)

/-- What the machine takes up in an event. -/
def takes (gateway : Gateway) (event : Event) : Option Server.Happening :=
  (gateway.moves event).bind gateway.desk.machine.takes

/-- An event stops the program, or the server goes on making of the bytes what it should. -/
theorem Sound.perform (reads : RuntimeReads) (cuts : RuntimeCuts) (sound : gateway.Sound)
    (known : gateway.Known) (event : Event) :
    (∃ fault, gateway.perform event = .error fault ∧ gateway.Stops event fault) ∨
      ∃ next, gateway.perform event = .ok next ∧ next.Sound ∧ next.Known ∧
        run Desk.perform gateway.desk (gateway.moves event).toList = .ok next.desk ∧
        ∀ conn, next.servedOn conn = gateway.servedOn conn ++
          (gateway.takes event).toList.filterMap (Server.Happening.packetOn conn) := by
  rcases sound.turn reads cuts known event with ⟨ready, move, turned, prepares⟩
  have moved : gateway.moves event = move := by
    rw [moves, turned]
  rw [takes, moved, Gateway.perform, turned]
  cases move with
  | none =>
      refine Or.inr ⟨ready, rfl, prepares.sound, fun conn => ?_, by rw [prepares.desk]; rfl,
        prepares.served⟩
      have foresees := prepares.foresees conn
      simp only [Option.not_mem_none, false_and, exists_false, false_or, not_false_eq_true,
        and_true] at foresees
      exact foresees
  | some event =>
      rcases prepares.sound.act (prepares.asked event rfl) prepares.housed with
        ⟨fault, stops, acted⟩ | ⟨desk, performed, ⟨⟨letter, written, pushed, long⟩, acted⟩ |
          ⟨next, acted, same, soundNext, kept⟩⟩
      · rw [prepares.desk] at stops
        exact Or.inl ⟨_, acted, .program turned prepares.sound.toServes stops⟩
      · rw [prepares.desk] at performed written
        exact Or.inl ⟨_, acted,
          .assertion turned prepares.sound.toServes performed written pushed long⟩
      · rw [← same] at performed
        have states (conn : Nat) :
            (next.links conn).map Link.state = (ready.links conn).map Link.state := by
          have both := congrArg (Option.map Prod.fst) (kept conn)
          rw [Option.map_map, Option.map_map] at both
          exact both
        have served (conn : Nat) : next.servedOn conn = ready.servedOn conn := by
          have both := congrArg (Option.map Prod.snd) (kept conn)
          rw [Option.map_map, Option.map_map] at both
          exact congrArg (fun packets => packets.getD []) both
        refine Or.inr ⟨next, acted, soundNext, Foresees.known prepares performed states, ?_,
          fun conn => (served conn).trans (prepares.served conn)⟩
        rw [prepares.desk] at performed
        exact run_cons_ok performed

/-- A run stops at an event, or it is a run of the machine. -/
theorem Sound.run (reads : RuntimeReads) (cuts : RuntimeCuts) (sound : gateway.Sound)
    (known : gateway.Known) (events : List Event) :
    (∃ earlier event later before fault, events = earlier ++ event :: later ∧
        Foundation.run Gateway.perform gateway earlier = .ok before ∧
        Foundation.run Gateway.perform gateway events = .error fault ∧ before.Stops event fault) ∨
      ∃ final, Foundation.run Gateway.perform gateway events = .ok final ∧ final.Sound ∧
        final.Known ∧
        Foundation.run Desk.perform gateway.desk (takenUp Gateway.perform moves gateway events) =
          .ok final.desk ∧
        ∀ conn, final.servedOn conn = gateway.servedOn conn ++
          (takenUp Gateway.perform takes gateway events).filterMap
            (Server.Happening.packetOn conn) := by
  induction events generalizing gateway with
  | nil => exact Or.inr ⟨gateway, rfl, sound, known, rfl, fun _ => (List.append_nil _).symm⟩
  | cons event rest inductionHypothesis =>
      rcases sound.perform reads cuts known event with
        ⟨fault, stopped, stops⟩ | ⟨next, performed, soundNext, knownNext, moved, served⟩
      · exact Or.inl ⟨[], event, rest, gateway, fault, rfl, rfl, run_cons_error stopped, stops⟩
      · rcases inductionHypothesis soundNext knownNext with
          ⟨earlier, one, later, before, fault, same, ran, stopped, stops⟩ |
            ⟨final, ran, soundFinal, knownFinal, desk, servedLater⟩
        · exact Or.inl ⟨event :: earlier, one, later, before, fault, by rw [same]; rfl,
            (run_cons_ok performed).trans ran, (run_cons_ok performed).trans stopped, stops⟩
        · refine Or.inr ⟨final, (run_cons_ok performed).trans ran, soundFinal, knownFinal, ?_,
            fun conn => ?_⟩
          · rw [takenUp, performed, run_append moved]
            exact desk
          · rw [takenUp, performed, List.filterMap_append, ← List.append_assoc, ← served]
            exact servedLater conn

omit [Protobuf] in
/-- Nothing has come, and nothing was sent. -/
theorem sound_start (server : Server) (disk : Disk) : (start server disk).Sound :=
  ⟨⟨fun _ _ found => absurd found (Option.some_ne_none _).symm, rfl, rfl⟩,
    fun _ member => absurd member List.not_mem_nil,
    fun _ there => absurd there (Option.not_mem_none _),
    fun _ member => absurd member List.not_mem_nil, fun _ member => absurd member List.not_mem_nil⟩

omit [Protobuf] [ProtobufRuntime] [Zlib] in
theorem known_start {server : Server} (disk : Disk) (nobody : server.connections = ∅) :
    (start server disk).Known := by
  intro conn
  refine iff_of_false ?_ ?_
  · change conn ∉ server.connections
    rw [nobody]
    exact AList.notMem_empty conn
  · rintro ⟨link, found, _⟩
    cases found

end Runs

end Serving

/-- Two clients open a channel each.  The bytes of one come in two pieces, and the other
goes on with a frame that is wrong. -/
def openings : List Event :=
  letI := asciiRuntime
  letI := adlerZlib
  let bytes := ProtobufCodec.frame ProtobufCodec.opening
  [.connect 0, .arrival 0 (bytes.take 20), .connect 1, .arrival 1 (bytes ++ List.replicate 14 0),
    .callback {} [], .callback {} [], .arrival 0 (bytes.drop 20), .callback {} []]

/-- What can be seen of a connection: its state, how much was sent, how many requests it had. -/
def outlook (gateway : Gateway) (conn : Nat) : Option (LinkState × Nat × Nat) :=
  (gateway.links conn).map fun link => (link.state, link.output.length, link.served.length)

end Gateway

end ProtobufMq
