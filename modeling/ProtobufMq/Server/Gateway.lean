import ProtobufMq.Common.Receiving
import ProtobufMq.Server.Answer

namespace ProtobufMq

open Foundation

/-!
# `server`: from bytes to requests, and back

The event loop hands the server the bytes of its connections as they arrive.
The codec finds the messages, the dispatcher finds the function that was
registered for the type of a message, and that function serves the request.
The response goes through the codec again, and so does what a task pushes to a
consumer: both are given to a connection, a push to that of the channel that
subscribed.  The event loop writes a response at once, and a push, which another
thread gives to the connection, as soon as it has nothing else to do.  A message
of any other type, and a frame that is wrong, shut the connection down.  From
then on it takes nothing, but what arrives is still read.

While the codec goes through what has arrived on a connection, the event loop
takes up nothing else; the tasks go on meanwhile.
-/

namespace WireMessage

/-- The request of a message, if a function is registered for its type. -/
def packet : WireMessage → Option Packet
  | .openChannelRequst message => some (.openChannel message.rid message.cid)
  | .cloceChannelRequst message => some (.closeChannel message.rid message.cid)
  | .declareExchangeRequest message => some (.request message.rid message.cid (.declareExchange
      ⟨message.exchangeName, message.exchangeType, message.durable, message.autoDelete,
        message.args⟩))
  | .deleteExchangeRequst message =>
      some (.request message.rid message.cid (.deleteExchange message.exchangeName))
  | .declareQueueRequst message => some (.request message.rid message.cid (.declareQueue
      ⟨message.queueName, message.durable, message.exclusive, message.autoDelete, message.args⟩))
  | .deleteQueueRequest message =>
      some (.request message.rid message.cid (.deleteQueue message.queueName))
  | .queueBindRequest message => some (.request message.rid message.cid
      (.queueBind message.exchangeName message.queueName message.bindingKey))
  | .queueUnbindRequest message => some (.request message.rid message.cid
      (.queueUnbind message.exchangeName message.queueName))
  | .basicPublishRequest message => some (.request message.rid message.cid
      (.basicPublish message.exchangeName message.properties message.body))
  | .basicAckRequest message => some (.request message.rid message.cid
      (.basicAck message.queueName message.messageId))
  | .basicConsumeRequest message => some (.request message.rid message.cid
      (.basicConsume message.consumerTag message.queueName message.autoAck))
  | .basicCancelRequest message => some (.request message.rid message.cid
      (.basicCancel message.consumerTag message.queueName))
  | .basicConsumeResponse _ => none
  | .basicCommonResponse _ => none
  | .other _ _ => none

end WireMessage

/-- The request of a call back of the codec, if there is one. -/
def requestOf : ProtobufCodec.Callback → Option Packet
  | .message message => message.packet
  | .error _ => none

/-- `TcpConnection::StateE`, of a connection that was established. -/
inductive LinkState where
  | connected
  | disconnecting
  | disconnected
  deriving DecidableEq, Repr

/-- `TcpConnection`: what has arrived and was not used, what was written, and what another
thread gave to `send` and the event loop has not written.  The last two are the book: all
that has arrived, and the requests that the server was given. -/
structure Link where
  input : Buffer := .new 1024
  state : LinkState := .connected
  output : Bytes := []
  queued : Bytes := []
  received : Bytes := []
  served : List Packet := []

namespace Link

/-- `TcpConnection::shutdown`. -/
def shutdown (link : Link) : Link :=
  if link.state = .connected then { link with state := .disconnecting } else link

/-- The peer is gone. -/
def close (link : Link) : Link :=
  { link with state := .disconnected }

/-- `TcpConnection::send`, by the event loop or by another thread. -/
def send (inLoop : Bool) (bytes : Bytes) (link : Link) : Link :=
  if link.state = .connected then
    if inLoop then { link with output := link.output ++ bytes }
    else { link with queued := link.queued ++ bytes }
  else link

/-- `TcpConnection::sendInLoop`, of what is queued.  After a shutdown it comes too late,
unless earlier output is still being written. -/
def sendInLoop (isWriting : Bool) (link : Link) : Link :=
  if link.state = .connected ∨ link.state = .disconnecting ∧ isWriting then
    { link with output := link.output ++ link.queued, queued := [] }
  else { link with queued := [] }

/-- A piece has arrived, and the codec has gone through the buffer. -/
def receive (piece : Bytes) (input : Buffer) (link : Link) : Link :=
  { link with input := input, received := link.received ++ piece }

/-- The server is given a request. -/
def serve (packet : Packet) (link : Link) : Link :=
  { link with served := link.served ++ [packet] }

end Link

/-- What the server gives to `ProtobufCodec::send`: the response of `basicResponse`, or
what `Channel::callback` pushes, for the channel with this id, on its connection unless
that is gone. -/
inductive Letter where
  | response (entry : Ticket × Bool)
  | push (conn : Option Nat) (cid : Bytes) (delivery : Delivery)

namespace Letter

/-- The connection that it goes to. -/
def conn : Letter → Option Nat
  | .response entry => some entry.1.conn
  | .push conn _ _ => conn

def message : Letter → WireMessage
  | .response entry => .basicCommonResponse ⟨entry.1.rid, entry.1.cid, entry.2⟩
  | .push _ cid delivery =>
      let payload := delivery.taken.pointer.message.payload
      .basicConsumeResponse
        ⟨cid, delivery.choice.consumer.tag, some payload.properties, payload.body⟩

/-- Responses are sent by the event loop, and pushes by a worker of the pool. -/
def inLoop : Letter → Bool
  | .response _ => true
  | .push _ _ _ => false

/-- The entry of the book that it answers for. -/
def answer : Letter → Option (Ticket × Bool)
  | .response entry => some entry
  | .push _ _ _ => none

/-- The call of a callback that it comes from. -/
def delivery : Letter → Option Delivery
  | .response _ => none
  | .push _ _ delivery => some delivery

end Letter

/-- `server` with its connections, each with a number of its own.  `reading` is what the
codec has found in the last piece and not handed on; `posted` is the book on the
messages that were given to `ProtobufCodec::send`. -/
structure Gateway where
  desk : Desk
  links : Nat → Option Link := fun _ => none
  reading : List (Nat × ProtobufCodec.Callback) := []
  posted : List Letter := []

/-- What stops the program. -/
inductive GatewayFault where
  /-- An assertion of the buffer or of the codec. -/
  | assertion
  | program (fault : Fault)
  deriving DecidableEq, Repr

namespace Gateway

variable [Protobuf] [ProtobufRuntime] [Zlib]

/-- A program with no connection. -/
def start (server : Server) (disk : Disk) : Gateway :=
  { desk := { machine := { server := server, disk := disk } } }

/-- Change a connection, if it is there. -/
def withLink (gateway : Gateway) (conn : Nat) (change : Link → Link) : Gateway :=
  { gateway with
    links := Function.update gateway.links conn ((gateway.links conn).map change) }

/-- The event loop has nothing in hand. -/
def isFree (gateway : Gateway) : Bool :=
  gateway.desk.machine.isIdle && gateway.reading.isEmpty

/-- What the codec has found on a connection and not handed on. -/
def waiting (gateway : Gateway) (conn : Nat) : List ProtobufCodec.Callback :=
  (gateway.reading.filter fun entry => entry.1 = conn).map Prod.snd

/-- The letters to a connection. -/
def lettersTo (conn : Nat) (letters : List Letter) : List Letter :=
  letters.filter fun letter => letter.conn = some conn

omit [Protobuf] [ProtobufRuntime] [Zlib] in
theorem lettersTo_append (conn : Nat) (first second : List Letter) :
    lettersTo conn (first ++ second) = lettersTo conn first ++ lettersTo conn second :=
  List.filter_append first second

/-! ## What goes back -/

/-- `ProtobufCodec::send`.  A connection that is gone sends nothing. -/
def post (gateway : Gateway) (letter : Letter) : Option Gateway :=
  (ProtobufCodec.send letter.message).map fun bytes =>
    match letter.conn with
    | none => gateway
    | some conn => gateway.withLink conn (Link.send letter.inLoop bytes)

/-- The callback of a consumer is a member function of the channel that subscribed. -/
def push (machine : Machine) (delivery : Delivery) : Letter :=
  let isIt : Channel → Bool := fun channel => channel.address = delivery.choice.consumer.channel
  .push
    ((machine.server.connections.entries.find? fun entry =>
      (Dictionary.values entry.2.channels).any isIt).map Sigma.fst)
    (((machine.channels.find? isIt).map Channel.cid).getD []) delivery

/-- What a step of the machine has to send. -/
def letters (before after : Desk) : List Letter :=
  (after.answered.drop before.answered.length).map .response ++
    (after.machine.sent.drop before.machine.sent.length).map (push before.machine)

/-- The machine takes a step, and what it answers and pushes is sent. -/
def act (gateway : Gateway) (event : Machine.Event) : Except GatewayFault Gateway :=
  match gateway.desk.perform event with
  | .error fault => .error (.program fault)
  | .ok desk =>
      let letters := letters gateway.desk desk
      match letters.foldlM post
          { gateway with desk := desk, posted := gateway.posted ++ letters } with
      | none => .error .assertion
      | some done => .ok done

/-! ## What comes in -/

/-- What happens next: something on a connection, what is queued for one is written, the
next call back of the codec, a further step of the request in hand, or a step of a
task. -/
inductive Event where
  | connect (conn : Nat)
  | disconnect (conn : Nat)
  | arrival (conn : Nat) (piece : Bytes)
  | writing (conn : Nat) (isWriting : Bool)
  | callback (chance : Chance) (script : List Outcome)
  | proceed (script : List Outcome)
  | work (index : Nat) (script : List Outcome)

/-- A call back of the codec: `onProtobufMessage` of the dispatcher, or
`defaultErrorCallback`.  Each function of the dispatcher looks for the connection
first. -/
def onCallback (gateway : Gateway) (conn : Nat) (callback : ProtobufCodec.Callback)
    (chance : Chance) (script : List Outcome) : Gateway × Option Machine.Event :=
  match requestOf callback with
  | none => (gateway.withLink conn Link.shutdown, none)
  | some packet =>
      if (gateway.desk.machine.server.connections.lookup conn).isSome then
        (gateway.withLink conn (Link.serve packet), some ⟨.packet conn chance packet, script⟩)
      else (gateway.withLink conn Link.shutdown, none)

/-- What an event does to the connections, and the step that the machine takes then.  The
event loop turns to a connection when it has nothing in hand. -/
def turn (gateway : Gateway) : Event → Except GatewayFault (Gateway × Option Machine.Event)
  | .connect conn =>
      .ok (if gateway.isFree && (gateway.links conn).isNone then
        ({ gateway with links := Function.update gateway.links conn (some {}) },
          some ⟨.connect conn, []⟩)
      else (gateway, none))
  | .disconnect conn =>
      .ok (if gateway.isFree then
        (gateway.withLink conn Link.close, some ⟨.disconnect conn, []⟩)
      else (gateway, none))
  | .arrival conn piece =>
      match gateway.links conn with
      | none => .ok (gateway, none)
      | some link =>
          if gateway.isFree && link.state ≠ .disconnected then
            match ProtobufCodec.arrive link.input piece with
            | none => .error .assertion
            | some (callbacks, input) =>
                .ok ({ gateway.withLink conn (Link.receive piece input) with
                  reading := callbacks.map fun callback => (conn, callback) }, none)
          else .ok (gateway, none)
  | .writing conn isWriting =>
      .ok (if gateway.isFree then gateway.withLink conn (Link.sendInLoop isWriting)
        else gateway, none)
  | .callback chance script =>
      .ok (match gateway.desk.machine.isIdle, gateway.reading with
        | true, (conn, callback) :: rest =>
            onCallback { gateway with reading := rest } conn callback chance script
        | _, _ => (gateway, none))
  | .proceed script => .ok (gateway, some ⟨.proceed, script⟩)
  | .work index script => .ok (gateway, some ⟨.work index, script⟩)

/-- Perform one event. -/
def perform (gateway : Gateway) (event : Event) : Except GatewayFault Gateway :=
  match gateway.turn event with
  | .error fault => .error fault
  | .ok (ready, none) => .ok ready
  | .ok (ready, some move) => ready.act move

/-- The step of the machine that an event brings. -/
def moves (gateway : Gateway) (event : Event) : Option Machine.Event :=
  match gateway.turn event with
  | .error _ => none
  | .ok done => done.2

/-! ## The ids of a request and of its reply -/

section Ids

omit [Protobuf] [Zlib] in
/-- Every message that is a request begins with the two ids. -/
theorem packet_slots : ∀ entry ∈ generated, ∀ inner packet,
    (entry.wrap inner).packet = some packet →
      (∃ get set, ⟨1, stringKind, get, set⟩ ∈ entry.schema.slots ∧ get inner = packet.rid) ∧
        ∃ get set, ⟨2, stringKind, get, set⟩ ∈ entry.schema.slots ∧ get inner = packet.cid := by
  simp only [generated, List.forall_mem_cons, List.not_mem_nil, false_implies, implies_true,
    and_true]
  refine ⟨?_, ?_, ?_, ?_, ?_, ?_, ?_, ?_, ?_, ?_, ?_, ?_,
    fun _ _ named => absurd named.symm (Option.some_ne_none _),
    fun _ _ named => absurd named.symm (Option.some_ne_none _)⟩
  all_goals
    intro inner packet named
    cases named
    exact ⟨⟨_, _, List.mem_cons_self, rfl⟩, ⟨_, _, List.mem_cons_of_mem _ List.mem_cons_self, rfl⟩⟩

omit [Protobuf] [Zlib] in
/-- The ids of a request that was received are no longer than its frame. -/
theorem decoded_ids (reads : RuntimeReads) (cuts : RuntimeCuts) {typeName data : Bytes}
    {message : WireMessage} {packet : Packet}
    (decoded : ProtobufCodec.decoded typeName data = .ok message)
    (request : message.packet = some packet) :
    packet.rid.length ≤ data.length ∧ packet.cid.length ≤ data.length ∧
      stringKind.valid packet.rid = true ∧ stringKind.valid packet.cid = true := by
  unfold ProtobufCodec.decoded at decoded
  cases created : WireMessage.createMessage typeName with
  | none =>
      rw [created] at decoded
      cases decoded
  | some parse =>
      rw [created] at decoded
      cases parsed : parse data with
      | none =>
          simp only [parsed] at decoded
          cases decoded
      | some other =>
          simp only [parsed] at decoded
          cases decoded
          rcases WireMessage.createMessage_cases created parsed with
            ⟨entry, member, _, inner, rfl, read⟩ | rfl
          · rcases packet_slots entry member inner packet request with
              ⟨⟨getRid, setRid, ridSlot, rid⟩, ⟨getCid, setCid, cidSlot, cid⟩⟩
            have lawful := WireMessage.generated_lawful reads entry member
            have valid := List.all_eq_true.mp (lawful.parse_valid read)
            rw [← rid, ← cid]
            exact ⟨lawful.parse_text_length cuts ridSlot read,
              lawful.parse_text_length cuts cidSlot read, valid _ ridSlot, valid _ cidSlot⟩
          · cases request

omit [Protobuf] in
/-- The ids of a request that the codec delivers are short, and UTF-8. -/
theorem item_ids (reads : RuntimeReads) (cuts : RuntimeCuts) {input : Bytes} {message : WireMessage}
    (member : message ∈ (ProtobufCodec.scanner.drain input).items) {packet : Packet}
    (request : message.packet = some packet) :
    packet.rid.length ≤ 64 * 1024 * 1024 ∧ packet.cid.length ≤ 64 * 1024 * 1024 ∧
      stringKind.valid packet.rid = true ∧ stringKind.valid packet.cid = true := by
  rcases ProtobufCodec.exists_part member with ⟨part, holds⟩
  have allowed := part.allowed
  rw [ProtobufCodec.length_sealed_body] at allowed
  have ids := decoded_ids reads cuts holds request
  exact ⟨by omega, by omega, ids.2.2⟩

omit [Protobuf] [Zlib] in
theorem length_text_le {value : Bytes} {number : Nat} (low : number < 16)
    (short : value.length < 128 ^ 4) :
    (encodeFields ((stringKind.write value).map fun written => ⟨number, written⟩)).length ≤
      value.length + 5 := by
  change (encodeFields ((if value = [] then [] else [FieldValue.delimited value]).map fun written =>
    ⟨number, written⟩)).length ≤ _
  by_cases empty : value = []
  · rw [if_pos empty]
    exact Nat.zero_le _
  · rw [if_neg empty]
    change (encodeFields [⟨number, .delimited value⟩]).length ≤ _
    rw [encodeFields, List.flatMap_singleton]
    exact length_encode_delimited_le low short

omit [Protobuf] [Zlib] in
/-- A response is as long as its ids and a few bytes. -/
theorem length_response_le {rid cid : Bytes} (ok : Bool) (ridShort : rid.length < 128 ^ 4)
    (cidShort : cid.length < 128 ^ 4) :
    (WireMessage.basicCommonResponse ⟨rid, cid, ok⟩).serialize.length ≤
      rid.length + cid.length + 12 := by
  have first := @length_text_le _ rid 1 (by decide) ridShort
  have second := @length_text_le _ cid 2 (by decide) cidShort
  have third : (encodeFields ((Kind.flag.write ok).map fun written => ⟨3, written⟩)).length ≤ 2 := by
    cases ok <;> decide
  have parts : (WireMessage.basicCommonResponse ⟨rid, cid, ok⟩).serialize =
      encodeFields ((stringKind.write rid).map fun written => ⟨1, written⟩) ++
        (encodeFields ((stringKind.write cid).map fun written => ⟨2, written⟩) ++
          encodeFields ((Kind.flag.write ok).map fun written => ⟨3, written⟩)) := by
    rw [← encodeFields_append, ← encodeFields_append]
    simp only [WireMessage.serialize, Schema.serialize, Schema.fields, BasicCommonResponse.schema,
      List.flatMap_cons, List.flatMap_nil, List.append_nil]
  rw [parts, List.length_append, List.length_append]
  omega

omit [Protobuf] [Zlib] in
/-- A response with short ids can be sent. -/
theorem response_sendable {rid cid : Bytes} (ok : Bool) (ridShort : rid.length ≤ 64 * 1024 * 1024)
    (cidShort : cid.length ≤ 64 * 1024 * 1024) :
    ProtobufCodec.Sendable (.basicCommonResponse ⟨rid, cid, ok⟩) := by
  have length := length_response_le ok (Nat.lt_of_le_of_lt ridShort (by decide))
    (Nat.lt_of_le_of_lt cidShort (by decide))
  refine ⟨trivial, Nat.lt_of_le_of_lt length ?_⟩
  rw [sizeLimit]
  omega

end Ids

end Gateway

end ProtobufMq
