import ProtobufMq.Server.Broker

namespace ProtobufMq
namespace Client

open Foundation

/-!
# `Channel` of the client: requests and the responses they wait for

Every request function of a channel generates an id, sends a request with it,
and waits until the map of responses has an entry for that id, which it takes
out.  The responses are put there by the workers of the client's pool.

The requests are the packets that the server's side of the development serves.
Of the callback of a consumer only one thing is kept: whether it acknowledges
the message with `basicAck` on its channel, as the one of `consumer_client` does.
-/

/-- What ends a thread of the client. -/
inductive Fault where
  /-- `ChannelManager::getChannel` uses the end iterator of `_channels`. -/
  | channelsEnd
  /-- `Channel::basicCancel` uses a consumer that is not there. -/
  | consumerNull
  deriving DecidableEq, Repr

/-- `basicCommonResponse`. -/
structure Response where
  rid : Bytes
  cid : Bytes
  ok : Bool
  deriving DecidableEq, Repr

/-- `basicConsumeResponse`: a pushed message. -/
structure Push where
  cid : Bytes
  consumerTag : Bytes
  properties : Option BasecProperties := none
  body : Bytes
  deriving DecidableEq

namespace Push

/-- `bp->id()` in the callback. -/
def messageId (push : Push) : Bytes :=
  (push.properties.map BasecProperties.id).getD []

end Push

/-- `struct Consumer`. -/
structure Consumer where
  tag : Bytes
  qname : Bytes
  autoAck : Bool
  acknowledges : Bool
  deriving DecidableEq, Repr

/-- `Channel`. -/
structure Channel where
  cid : Bytes
  basicResp : Dictionary Bytes Response := ∅
  consumerPtr : Option Consumer := none

/-- The request functions with their arguments. -/
inductive Call where
  | openChannel
  | closeChannel
  | declareExchange (exchange : Exchange)
  | deleteExchange (exchangeName : Bytes)
  | declareQueue (queue : MsgQueue)
  | deleteQueue (queueName : Bytes)
  | queueBind (exchangeName queueName bindingKey : Bytes)
  | queueUnbind (exchangeName queueName : Bytes)
  | basicPublish (exchangeName : Bytes) (properties : Option BasecProperties) (body : Bytes)
  | basicAck (messageId : Bytes)
  | basicConsume (consumer : Consumer)
  | basicCancel

namespace Channel

variable (channel : Channel) (rid : Bytes)

/-! ## The request that a call sends -/

/-- A request of the server's side, on this channel. -/
def ask (request : Request) : Packet :=
  .request rid channel.cid request

/-- `Channel::openChannel`. -/
def openChannel : Packet := .openChannel rid channel.cid

/-- `Channel::closeChannel`. -/
def closeChannel : Packet := .closeChannel rid channel.cid

/-- `Channel::declareExchange`. -/
def declareExchange (exchange : Exchange) : Packet :=
  channel.ask rid (.declareExchange exchange)

/-- `Channel::deleteExchange`. -/
def deleteExchange (exchangeName : Bytes) : Packet :=
  channel.ask rid (.deleteExchange exchangeName)

/-- `Channel::declareQueue`. -/
def declareQueue (queue : MsgQueue) : Packet :=
  channel.ask rid (.declareQueue queue)

/-- `Channel::deleteQueue`. -/
def deleteQueue (queueName : Bytes) : Packet :=
  channel.ask rid (.deleteQueue queueName)

/-- `Channel::queueBind`. -/
def queueBind (exchangeName queueName bindingKey : Bytes) : Packet :=
  channel.ask rid (.queueBind exchangeName queueName bindingKey)

/-- `Channel::queueUnbind`. -/
def queueUnbind (exchangeName queueName : Bytes) : Packet :=
  channel.ask rid (.queueUnbind exchangeName queueName)

/-- `Channel::basicPublish`. -/
def basicPublish (exchangeName : Bytes) (properties : Option BasecProperties) (body : Bytes) :
    Packet :=
  channel.ask rid (.basicPublish exchangeName properties body)

/-- `Channel::basicAck`: nothing is sent without a consumer. -/
def basicAck (messageId : Bytes) : Option Packet :=
  channel.consumerPtr.map fun consumer => channel.ask rid (.basicAck consumer.qname messageId)

/-- `Channel::basicConsume`: nothing is sent if there is a consumer already. -/
def basicConsume (consumer : Consumer) : Option Packet :=
  match channel.consumerPtr with
  | some _ => none
  | none => some (channel.ask rid (.basicConsume consumer.tag consumer.qname consumer.autoAck))

/-- `Channel::basicCancel`, which does not ask whether there is a consumer. -/
def basicCancel : Except Fault Packet :=
  match channel.consumerPtr with
  | none => .error .consumerNull
  | some consumer => .ok (channel.ask rid (.basicCancel consumer.tag consumer.qname))

/-- What a call sends, if it does not return at once. -/
def send : Call → Except Fault (Option Packet)
  | .openChannel => .ok (channel.openChannel rid)
  | .closeChannel => .ok (channel.closeChannel rid)
  | .declareExchange exchange => .ok (channel.declareExchange rid exchange)
  | .deleteExchange exchangeName => .ok (channel.deleteExchange rid exchangeName)
  | .declareQueue queue => .ok (channel.declareQueue rid queue)
  | .deleteQueue queueName => .ok (channel.deleteQueue rid queueName)
  | .queueBind exchangeName queueName bindingKey =>
      .ok (channel.queueBind rid exchangeName queueName bindingKey)
  | .queueUnbind exchangeName queueName => .ok (channel.queueUnbind rid exchangeName queueName)
  | .basicPublish exchangeName properties body =>
      .ok (channel.basicPublish rid exchangeName properties body)
  | .basicAck messageId => .ok (channel.basicAck rid messageId)
  | .basicConsume consumer => .ok (channel.basicConsume rid consumer)
  | .basicCancel => (channel.basicCancel rid).map some

/-! ## What comes back -/

/-- `Channel::putBasicResponse`. -/
def putBasicResponse (resp : Response) : Channel :=
  { channel with basicResp := Dictionary.assign resp.rid resp channel.basicResp }

/-- `Channel::waitBasicResponse`: nothing while it blocks. -/
def waitBasicResponse : Option (Response × Channel) :=
  (channel.basicResp.lookup rid).map fun resp =>
    (resp, { channel with basicResp := channel.basicResp.erase rid })

/-- What a call does with the channel when it has its response. -/
def finish (resp : Response) : Call → Channel
  | .basicConsume consumer => if resp.ok then { channel with consumerPtr := some consumer } else channel
  | .basicCancel => if resp.ok then { channel with consumerPtr := none } else channel
  | _ => channel

/-- `Channel::consume`: the consumer whose callback is called, if any. -/
def consume (push : Push) : Option Consumer :=
  match channel.consumerPtr with
  | none => none
  | some consumer => if consumer.tag = push.consumerTag then some consumer else none

/-! ## What the functions leave as it is -/

@[simp] theorem putBasicResponse_cid (resp : Response) :
    (channel.putBasicResponse resp).cid = channel.cid := rfl

@[simp] theorem finish_cid (resp : Response) (call : Call) :
    (channel.finish resp call).cid = channel.cid := by
  unfold finish
  split <;> first | rfl | split <;> rfl

@[simp] theorem finish_basicResp (resp : Response) (call : Call) :
    (channel.finish resp call).basicResp = channel.basicResp := by
  unfold finish
  split <;> first | rfl | split <;> rfl

/-- A request carries the ids of its call. -/
theorem send_ids {call : Call} {packet : Packet}
    (sent : channel.send rid call = .ok (some packet)) :
    packet.rid = rid ∧ packet.cid = channel.cid := by
  cases call with
  | basicAck messageId =>
      rcases Option.map_eq_some_iff.mp (Except.ok.inj sent) with ⟨consumer, _, rfl⟩
      exact ⟨rfl, rfl⟩
  | basicConsume consumer =>
      have result := Except.ok.inj sent
      unfold basicConsume at result
      cases subscribed : channel.consumerPtr with
      | none =>
          rw [subscribed] at result
          cases result
          exact ⟨rfl, rfl⟩
      | some other =>
          rw [subscribed] at result
          cases result
  | basicCancel =>
      rcases except_map_eq_ok sent with ⟨cancel, done, same⟩
      cases same
      unfold basicCancel at done
      cases subscribed : channel.consumerPtr with
      | none =>
          rw [subscribed] at done
          cases done
      | some consumer =>
          rw [subscribed] at done
          cases done
          exact ⟨rfl, rfl⟩
  | _ =>
      cases sent
      exact ⟨rfl, rfl⟩

/-- A callback is called for the consumer of the channel, with its tag. -/
theorem consume_eq_some {push : Push} {consumer : Consumer} :
    channel.consume push = some consumer ↔
      channel.consumerPtr = some consumer ∧ consumer.tag = push.consumerTag := by
  unfold consume
  cases channel.consumerPtr with
  | none => exact ⟨nofun, nofun⟩
  | some other =>
      by_cases same : other.tag = push.consumerTag
      · simp only [if_pos same, Option.some.injEq]
        exact ⟨fun equal => ⟨equal, equal ▸ same⟩, And.left⟩
      · simp only [if_neg same, Option.some.injEq]
        exact ⟨nofun, fun both => absurd (both.1 ▸ both.2) same⟩

end Channel

end Client
end ProtobufMq
