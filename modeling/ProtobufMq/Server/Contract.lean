import ProtobufMq.Server.Serving

namespace ProtobufMq

open Foundation

/-!
# From the bytes of the clients to the specification

The program that reads the bytes of its connections is the machine that takes up
the requests in them, and what the machine answers is specified.  So the bytes
that come say what the specification is asked, and what the specification
answers is what goes back, as long as the connection is not shut down; the only
other thing that goes back are the messages that callbacks push.
-/

namespace Gateway

section Conforming

variable [Protobuf] [ProtobufRuntime] [Zlib] {gateway next : Gateway} {broker : Broker}
  {seen : List Server.Seen}

/-- The server makes of the bytes what it should, and has done what was specified when it
is done with the request in hand. -/
structure Conforms (gateway : Gateway) (broker : Broker) (seen : List Server.Seen) : Prop where
  sound : gateway.Sound
  known : gateway.Known
  settles : ({ desk := gateway.desk } : Program).Settles broker seen

/-- An event conforms: the machine takes its step, if the event brings one. -/
theorem Conforms.performed (reads : RuntimeReads) (cuts : RuntimeCuts)
    (conforms : gateway.Conforms broker seen) {event : Event}
    (performed : gateway.perform event = .ok next) :
    next.Sound ∧ next.Known ∧
      run Desk.perform gateway.desk (gateway.moves event).toList = .ok next.desk := by
  rcases conforms.sound.perform reads cuts conforms.known event with
    ⟨fault, stopped, _⟩ | ⟨other, done, sound, known, moved, _⟩
  · cases stopped.symm.trans performed
  · cases done.symm.trans performed
    exact ⟨sound, known, moved⟩

/-- Nothing is taken up. -/
theorem Conforms.silent (reads : RuntimeReads) (cuts : RuntimeCuts)
    (conforms : gateway.Conforms broker seen) {event : Event} (nothing : gateway.takes event = none)
    (performed : gateway.perform event = .ok next) : next.Conforms broker seen := by
  rcases conforms.performed reads cuts performed with ⟨sound, known, moved⟩
  refine ⟨sound, known, ?_⟩
  cases moves : gateway.moves event with
  | none =>
      rw [moves] at moved
      have same : gateway.desk = next.desk := Except.ok.inj moved
      rw [← same]
      exact conforms.settles
  | some move =>
      rw [takes, moves] at nothing
      rw [moves] at moved
      rcases run_cons_inv moved with ⟨desk, stepped, rest⟩
      cases rest
      refine @Program.Settles.silent _ _ _ _ _ conforms.settles (.step move) nothing ?_
      rw [Program.perform, stepped]
      rfl

/-- What is taken up is done as specified. -/
theorem Conforms.taken (reads : RuntimeReads) (cuts : RuntimeCuts)
    (conforms : gateway.Conforms broker seen) {event : Event} {happening : Server.Happening}
    (taken : gateway.takes event = some happening)
    (performed : gateway.perform event = .ok next) :
    ∃ first later, broker.Answers happening first later ∧ next.Conforms later (seen ++ [first]) := by
  rcases conforms.performed reads cuts performed with ⟨sound, known, moved⟩
  cases moves : gateway.moves event with
  | none =>
      rw [takes, moves] at taken
      cases taken
  | some move =>
      rw [takes, moves] at taken
      rw [moves] at moved
      rcases run_cons_inv moved with ⟨desk, stepped, rest⟩
      cases rest
      have program : Program.perform { desk := gateway.desk } (.step move) =
          .ok { desk := next.desk } := by
        rw [Program.perform, stepped]
        rfl
      rcases @Program.Settles.taken _ _ _ _ _ conforms.settles (.step move) _ taken program with
        ⟨first, later, answers, settles⟩
      exact ⟨first, later, answers, sound, known, settles⟩

omit [Protobuf] [Zlib] [ProtobufRuntime] in
/-- What is sent can be held by its class if the delivery mode of what is pushed can. -/
theorem representable_letter {letter : Letter} (holds : ∀ delivery ∈ letter.delivery,
      IsInt delivery.taken.pointer.message.payload.properties.deliverMode.code) :
    letter.message.Representable := by
  cases letter with
  | response entry => trivial
  | push conn cid delivery =>
      intro properties same
      cases same
      exact holds delivery rfl

end Conforming

/-- The run of the two clients completes, and nothing is pushed in it. -/
theorem openings_complete :
    letI := wireFormat
    letI := asciiRuntime
    letI := adlerZlib
    ∃ final, run Gateway.perform (start (.fresh []) fun _ => none) openings = .ok final ∧
      (∃ link, final.links 0 = some link) ∧ final.desk.machine.sent = [] := by
  let _ := wireFormat
  let _ := asciiRuntime
  let _ := adlerZlib
  have result : (run Gateway.perform (start (.fresh []) fun _ => none) openings).map
      (fun final => ((final.links 0).isSome, final.desk.machine.sent.length)) =
      .ok (true, 0) := by decide +kernel
  rcases except_map_eq_ok result with ⟨final, completes, seen⟩
  have linked : (final.links 0).isSome = true := congrArg Prod.fst seen
  exact ⟨final, completes, Option.isSome_iff_exists.mp linked,
    List.eq_nil_of_length_eq_zero (congrArg Prod.snd seen)⟩

end Gateway

end ProtobufMq
