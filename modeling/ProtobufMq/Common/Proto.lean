import ProtobufMq.Common.Msg
import ProtobufMq.Foundation.Schema

namespace ProtobufMq

open Foundation

/-!
# The messages of `proto.proto`

For every message of the schema the generated code has a class with the fields,
a function that writes them in the order of their numbers, and a loop that reads
them in any order.  All of these are the same but for the list of fields, so
each message has a structure and a schema here.

The generated code calls the protobuf runtime, which is not part of the
repository: to read the tags and values of an encoded message, and to tell
whether a text is UTF-8.  A text that is not can be written, with no more than a
warning, but the loop that reads it fails.  Fields of unknown numbers are kept
aside by the runtime and never looked at, so a message has none here.
-/

/-- The protobuf runtime, as far as the generated code and the codec use it.
`readFields` gives the fields of an encoded message that have a number and a
value the generated code asks for, or nothing if the encoding is malformed.
`otherType` knows the message types that are compiled in besides those of
`proto.proto`, each with whether it can read some bytes. -/
class ProtobufRuntime where
  verifyUTF8 : Bytes → Bool
  verifyUTF8_nil : verifyUTF8 [] = true
  readFields : Bytes → Option (List Field)
  otherType : Bytes → Option (Bytes → Bool)

/-! ## The kinds of the fields -/

/-- What `static_cast` to an enumeration makes of a 64-bit number: its lower 32
bits with their sign, in the unsigned form in which they travel. -/
def enumOfVarint (number : Nat) : Nat :=
  if number % 2 ^ 32 < 2 ^ 31 then number % 2 ^ 32 else number % 2 ^ 32 + (2 ^ 64 - 2 ^ 32)

/-- A number that an enumeration can have. -/
def IsInt (code : Nat) : Prop :=
  code < 2 ^ 31 ∨ 2 ^ 64 - 2 ^ 31 ≤ code ∧ code < 2 ^ 64

theorem enumOfVarint_of_isInt {code : Nat} (isInt : IsInt code) :
    code < 2 ^ 64 ∧ enumOfVarint code = code := by
  unfold IsInt at isInt
  unfold enumOfVarint
  constructor
  · omega
  · split <;> omega

/-- `ExchangeType`. -/
def exchangeTypeKind : Kind ExchangeType :=
  .enumeration .unknowType ExchangeType.code fun number => .ofCode (enumOfVarint number)

/-- `DeliveryMode`. -/
def deliveryModeKind : Kind DeliveryMode :=
  .enumeration .unknowMode DeliveryMode.code fun number => .ofCode (enumOfVarint number)

@[simp] theorem exchangeTypeKind_absent : exchangeTypeKind.absent = .unknowType := rfl

@[simp] theorem deliveryModeKind_absent : deliveryModeKind.absent = .unknowMode := rfl

@[simp] theorem exchangeTypeKind_lawful : exchangeTypeKind.Lawful :=
  Kind.enumeration_lawful fun type zero => by
    cases type <;> simp_all [ExchangeType.code]

@[simp] theorem deliveryModeKind_lawful : deliveryModeKind.Lawful :=
  Kind.enumeration_lawful fun mode zero => by
    cases mode <;> simp_all [DeliveryMode.code]

theorem exchangeTypeKind_fits {type : ExchangeType} (isInt : IsInt type.code) :
    exchangeTypeKind.Fits type := by
  have number := enumOfVarint_of_isInt isInt
  exact ⟨number.1, by simp only [number.2, ExchangeType.ofCode_code]⟩

theorem deliveryModeKind_fits {mode : DeliveryMode} (isInt : IsInt mode.code) :
    deliveryModeKind.Fits mode := by
  have number := enumOfVarint_of_isInt isInt
  exact ⟨number.1, by simp only [number.2, DeliveryMode.ofCode_code]⟩

section Kinds

variable [ProtobufRuntime]

/-- `string`. -/
def stringKind : Kind Bytes :=
  .text ProtobufRuntime.verifyUTF8

/-- `map<string, string>`. -/
def argsKind : Kind (Dictionary Bytes Bytes) :=
  .dictionary ProtobufRuntime.verifyUTF8 ProtobufRuntime.readFields

/-- The runtime reads back the fields that were written. -/
def RuntimeReads : Prop :=
  ReadsBack ProtobufRuntime.readFields

/-- The runtime cuts the fields out of the bytes it is given. -/
def RuntimeCuts : Prop :=
  Cuts ProtobufRuntime.readFields

@[simp] theorem stringKind_absent : stringKind.absent = [] := rfl

@[simp] theorem argsKind_absent : argsKind.absent = ∅ := rfl

@[simp] theorem stringKind_lawful : stringKind.Lawful :=
  Kind.text_lawful

@[simp] theorem argsKind_lawful (reads : RuntimeReads) : argsKind.Lawful :=
  Kind.dictionary_lawful ProtobufRuntime.verifyUTF8_nil reads

end Kinds

/-- A runtime for texts of ASCII characters, with no other types compiled in. -/
@[reducible] def asciiRuntime : ProtobufRuntime where
  verifyUTF8 text := text.all fun byte => byte < 128
  verifyUTF8_nil := rfl
  readFields := decodeWhole
  otherType _ := none

theorem asciiRuntime_reads : @RuntimeReads asciiRuntime :=
  decodeWhole_readsBack

theorem asciiRuntime_cuts : @RuntimeCuts asciiRuntime :=
  decodeWhole_cuts

/-! ## The messages -/

/-- The fields of `BasecProperties`. -/
def BasecProperties.schema [ProtobufRuntime] : Schema BasecProperties where
  empty := {}
  slots := [
    ⟨1, stringKind, id, fun message value => { message with id := value }⟩,
    ⟨2, deliveryModeKind, deliverMode, fun message value => { message with deliverMode := value }⟩,
    ⟨3, stringKind, rotingKey, fun message value => { message with rotingKey := value }⟩]

theorem BasecProperties.schema_lawful [ProtobufRuntime] : schema.Lawful := by
  refine .of_slots (by simp [schema, Slot.serves_iff]) (by simp [schema, Slot.Apart]) ?_
  rintro ⟨⟩ ⟨⟩ same
  simpa [schema] using same

/-- `BasecProperties` in another message. -/
def propertiesKind [ProtobufRuntime] : Kind (Option BasecProperties) :=
  .submessage BasecProperties.schema ProtobufRuntime.readFields

@[simp] theorem propertiesKind_absent [ProtobufRuntime] : propertiesKind.absent = none := rfl

@[simp] theorem propertiesKind_lawful [ProtobufRuntime] (reads : RuntimeReads) : propertiesKind.Lawful :=
  Kind.submessage_lawful BasecProperties.schema_lawful reads

/-- `message openChannelRequst`. -/
structure OpenChannelRequst where
  rid : Bytes := []
  cid : Bytes := []

/-- The fields of `openChannelRequst`. -/
def OpenChannelRequst.schema [ProtobufRuntime] : Schema OpenChannelRequst where
  empty := {}
  slots := [
    ⟨1, stringKind, rid, fun message value => { message with rid := value }⟩,
    ⟨2, stringKind, cid, fun message value => { message with cid := value }⟩]

theorem OpenChannelRequst.schema_lawful [ProtobufRuntime] : schema.Lawful := by
  refine .of_slots (by simp [schema, Slot.serves_iff]) (by simp [schema, Slot.Apart]) ?_
  rintro ⟨⟩ ⟨⟩ same
  simpa [schema] using same

/-- `message cloceChannelRequst`. -/
structure CloceChannelRequst where
  rid : Bytes := []
  cid : Bytes := []

/-- The fields of `cloceChannelRequst`. -/
def CloceChannelRequst.schema [ProtobufRuntime] : Schema CloceChannelRequst where
  empty := {}
  slots := [
    ⟨1, stringKind, rid, fun message value => { message with rid := value }⟩,
    ⟨2, stringKind, cid, fun message value => { message with cid := value }⟩]

theorem CloceChannelRequst.schema_lawful [ProtobufRuntime] : schema.Lawful := by
  refine .of_slots (by simp [schema, Slot.serves_iff]) (by simp [schema, Slot.Apart]) ?_
  rintro ⟨⟩ ⟨⟩ same
  simpa [schema] using same

/-- `message declareExchangeRequest`. -/
structure DeclareExchangeRequest where
  rid : Bytes := []
  cid : Bytes := []
  exchangeName : Bytes := []
  exchangeType : ExchangeType := .unknowType
  durable : DeliveryMode := .unknowMode
  autoDelete : Bool := false
  args : Dictionary Bytes Bytes := ∅

/-- The fields of `declareExchangeRequest`. -/
def DeclareExchangeRequest.schema [ProtobufRuntime] : Schema DeclareExchangeRequest where
  empty := {}
  slots := [
    ⟨1, stringKind, rid, fun message value => { message with rid := value }⟩,
    ⟨2, stringKind, cid, fun message value => { message with cid := value }⟩,
    ⟨3, stringKind, exchangeName, fun message value => { message with exchangeName := value }⟩,
    ⟨4, exchangeTypeKind, exchangeType, fun message value => { message with exchangeType := value }⟩,
    ⟨5, deliveryModeKind, durable, fun message value => { message with durable := value }⟩,
    ⟨6, Kind.flag, autoDelete, fun message value => { message with autoDelete := value }⟩,
    ⟨7, argsKind, args, fun message value => { message with args := value }⟩]

theorem DeclareExchangeRequest.schema_lawful [ProtobufRuntime] (reads : RuntimeReads) :
    schema.Lawful := by
  refine .of_slots (by simp [schema, Slot.serves_iff, reads]) (by simp [schema, Slot.Apart]) ?_
  rintro ⟨⟩ ⟨⟩ same
  simpa [schema] using same

/-- `message deleteExchangeRequst`. -/
structure DeleteExchangeRequst where
  rid : Bytes := []
  cid : Bytes := []
  exchangeName : Bytes := []

/-- The fields of `deleteExchangeRequst`. -/
def DeleteExchangeRequst.schema [ProtobufRuntime] : Schema DeleteExchangeRequst where
  empty := {}
  slots := [
    ⟨1, stringKind, rid, fun message value => { message with rid := value }⟩,
    ⟨2, stringKind, cid, fun message value => { message with cid := value }⟩,
    ⟨3, stringKind, exchangeName, fun message value => { message with exchangeName := value }⟩]

theorem DeleteExchangeRequst.schema_lawful [ProtobufRuntime] : schema.Lawful := by
  refine .of_slots (by simp [schema, Slot.serves_iff]) (by simp [schema, Slot.Apart]) ?_
  rintro ⟨⟩ ⟨⟩ same
  simpa [schema] using same

/-- `message declareQueueRequst`. -/
structure DeclareQueueRequst where
  rid : Bytes := []
  cid : Bytes := []
  queueName : Bytes := []
  durable : Bool := false
  exclusive : Bool := false
  autoDelete : Bool := false
  args : Dictionary Bytes Bytes := ∅

/-- The fields of `declareQueueRequst`. -/
def DeclareQueueRequst.schema [ProtobufRuntime] : Schema DeclareQueueRequst where
  empty := {}
  slots := [
    ⟨1, stringKind, rid, fun message value => { message with rid := value }⟩,
    ⟨2, stringKind, cid, fun message value => { message with cid := value }⟩,
    ⟨3, stringKind, queueName, fun message value => { message with queueName := value }⟩,
    ⟨4, Kind.flag, durable, fun message value => { message with durable := value }⟩,
    ⟨5, Kind.flag, exclusive, fun message value => { message with exclusive := value }⟩,
    ⟨6, Kind.flag, autoDelete, fun message value => { message with autoDelete := value }⟩,
    ⟨7, argsKind, args, fun message value => { message with args := value }⟩]

theorem DeclareQueueRequst.schema_lawful [ProtobufRuntime] (reads : RuntimeReads) :
    schema.Lawful := by
  refine .of_slots (by simp [schema, Slot.serves_iff, reads]) (by simp [schema, Slot.Apart]) ?_
  rintro ⟨⟩ ⟨⟩ same
  simpa [schema] using same

/-- `message deleteQueueRequest`. -/
structure DeleteQueueRequest where
  rid : Bytes := []
  cid : Bytes := []
  queueName : Bytes := []

/-- The fields of `deleteQueueRequest`. -/
def DeleteQueueRequest.schema [ProtobufRuntime] : Schema DeleteQueueRequest where
  empty := {}
  slots := [
    ⟨1, stringKind, rid, fun message value => { message with rid := value }⟩,
    ⟨2, stringKind, cid, fun message value => { message with cid := value }⟩,
    ⟨3, stringKind, queueName, fun message value => { message with queueName := value }⟩]

theorem DeleteQueueRequest.schema_lawful [ProtobufRuntime] : schema.Lawful := by
  refine .of_slots (by simp [schema, Slot.serves_iff]) (by simp [schema, Slot.Apart]) ?_
  rintro ⟨⟩ ⟨⟩ same
  simpa [schema] using same

/-- `message queueBindRequest`. -/
structure QueueBindRequest where
  rid : Bytes := []
  cid : Bytes := []
  exchangeName : Bytes := []
  queueName : Bytes := []
  bindingKey : Bytes := []

/-- The fields of `queueBindRequest`. -/
def QueueBindRequest.schema [ProtobufRuntime] : Schema QueueBindRequest where
  empty := {}
  slots := [
    ⟨1, stringKind, rid, fun message value => { message with rid := value }⟩,
    ⟨2, stringKind, cid, fun message value => { message with cid := value }⟩,
    ⟨3, stringKind, exchangeName, fun message value => { message with exchangeName := value }⟩,
    ⟨4, stringKind, queueName, fun message value => { message with queueName := value }⟩,
    ⟨5, stringKind, bindingKey, fun message value => { message with bindingKey := value }⟩]

theorem QueueBindRequest.schema_lawful [ProtobufRuntime] : schema.Lawful := by
  refine .of_slots (by simp [schema, Slot.serves_iff]) (by simp [schema, Slot.Apart]) ?_
  rintro ⟨⟩ ⟨⟩ same
  simpa [schema] using same

/-- `message queueUnbindRequest`. -/
structure QueueUnbindRequest where
  rid : Bytes := []
  cid : Bytes := []
  exchangeName : Bytes := []
  queueName : Bytes := []

/-- The fields of `queueUnbindRequest`. -/
def QueueUnbindRequest.schema [ProtobufRuntime] : Schema QueueUnbindRequest where
  empty := {}
  slots := [
    ⟨1, stringKind, rid, fun message value => { message with rid := value }⟩,
    ⟨2, stringKind, cid, fun message value => { message with cid := value }⟩,
    ⟨3, stringKind, exchangeName, fun message value => { message with exchangeName := value }⟩,
    ⟨4, stringKind, queueName, fun message value => { message with queueName := value }⟩]

theorem QueueUnbindRequest.schema_lawful [ProtobufRuntime] : schema.Lawful := by
  refine .of_slots (by simp [schema, Slot.serves_iff]) (by simp [schema, Slot.Apart]) ?_
  rintro ⟨⟩ ⟨⟩ same
  simpa [schema] using same

/-- `message basicPublishRequest`. -/
structure BasicPublishRequest where
  rid : Bytes := []
  cid : Bytes := []
  exchangeName : Bytes := []
  properties : Option BasecProperties := none
  body : Bytes := []

/-- The fields of `basicPublishRequest`. -/
def BasicPublishRequest.schema [ProtobufRuntime] : Schema BasicPublishRequest where
  empty := {}
  slots := [
    ⟨1, stringKind, rid, fun message value => { message with rid := value }⟩,
    ⟨2, stringKind, cid, fun message value => { message with cid := value }⟩,
    ⟨3, stringKind, exchangeName, fun message value => { message with exchangeName := value }⟩,
    ⟨4, propertiesKind, properties, fun message value => { message with properties := value }⟩,
    ⟨5, stringKind, body, fun message value => { message with body := value }⟩]

theorem BasicPublishRequest.schema_lawful [ProtobufRuntime] (reads : RuntimeReads) :
    schema.Lawful := by
  refine .of_slots (by simp [schema, Slot.serves_iff, reads]) (by simp [schema, Slot.Apart]) ?_
  rintro ⟨⟩ ⟨⟩ same
  simpa [schema] using same

/-- `message basicAckRequest`. -/
structure BasicAckRequest where
  rid : Bytes := []
  cid : Bytes := []
  queueName : Bytes := []
  messageId : Bytes := []

/-- The fields of `basicAckRequest`. -/
def BasicAckRequest.schema [ProtobufRuntime] : Schema BasicAckRequest where
  empty := {}
  slots := [
    ⟨1, stringKind, rid, fun message value => { message with rid := value }⟩,
    ⟨2, stringKind, cid, fun message value => { message with cid := value }⟩,
    ⟨3, stringKind, queueName, fun message value => { message with queueName := value }⟩,
    ⟨4, stringKind, messageId, fun message value => { message with messageId := value }⟩]

theorem BasicAckRequest.schema_lawful [ProtobufRuntime] : schema.Lawful := by
  refine .of_slots (by simp [schema, Slot.serves_iff]) (by simp [schema, Slot.Apart]) ?_
  rintro ⟨⟩ ⟨⟩ same
  simpa [schema] using same

/-- `message basicConsumeRequest`. -/
structure BasicConsumeRequest where
  rid : Bytes := []
  cid : Bytes := []
  consumerTag : Bytes := []
  queueName : Bytes := []
  autoAck : Bool := false

/-- The fields of `basicConsumeRequest`. -/
def BasicConsumeRequest.schema [ProtobufRuntime] : Schema BasicConsumeRequest where
  empty := {}
  slots := [
    ⟨1, stringKind, rid, fun message value => { message with rid := value }⟩,
    ⟨2, stringKind, cid, fun message value => { message with cid := value }⟩,
    ⟨3, stringKind, consumerTag, fun message value => { message with consumerTag := value }⟩,
    ⟨4, stringKind, queueName, fun message value => { message with queueName := value }⟩,
    ⟨5, Kind.flag, autoAck, fun message value => { message with autoAck := value }⟩]

theorem BasicConsumeRequest.schema_lawful [ProtobufRuntime] : schema.Lawful := by
  refine .of_slots (by simp [schema, Slot.serves_iff]) (by simp [schema, Slot.Apart]) ?_
  rintro ⟨⟩ ⟨⟩ same
  simpa [schema] using same

/-- `message basicCancelRequest`. -/
structure BasicCancelRequest where
  rid : Bytes := []
  cid : Bytes := []
  consumerTag : Bytes := []
  queueName : Bytes := []

/-- The fields of `basicCancelRequest`. -/
def BasicCancelRequest.schema [ProtobufRuntime] : Schema BasicCancelRequest where
  empty := {}
  slots := [
    ⟨1, stringKind, rid, fun message value => { message with rid := value }⟩,
    ⟨2, stringKind, cid, fun message value => { message with cid := value }⟩,
    ⟨3, stringKind, consumerTag, fun message value => { message with consumerTag := value }⟩,
    ⟨4, stringKind, queueName, fun message value => { message with queueName := value }⟩]

theorem BasicCancelRequest.schema_lawful [ProtobufRuntime] : schema.Lawful := by
  refine .of_slots (by simp [schema, Slot.serves_iff]) (by simp [schema, Slot.Apart]) ?_
  rintro ⟨⟩ ⟨⟩ same
  simpa [schema] using same

/-- `message basicConsumeResponse`. -/
structure BasicConsumeResponse where
  cid : Bytes := []
  consumerTag : Bytes := []
  properties : Option BasecProperties := none
  body : Bytes := []

/-- The fields of `basicConsumeResponse`. -/
def BasicConsumeResponse.schema [ProtobufRuntime] : Schema BasicConsumeResponse where
  empty := {}
  slots := [
    ⟨1, stringKind, cid, fun message value => { message with cid := value }⟩,
    ⟨2, stringKind, consumerTag, fun message value => { message with consumerTag := value }⟩,
    ⟨3, propertiesKind, properties, fun message value => { message with properties := value }⟩,
    ⟨4, stringKind, body, fun message value => { message with body := value }⟩]

theorem BasicConsumeResponse.schema_lawful [ProtobufRuntime] (reads : RuntimeReads) :
    schema.Lawful := by
  refine .of_slots (by simp [schema, Slot.serves_iff, reads]) (by simp [schema, Slot.Apart]) ?_
  rintro ⟨⟩ ⟨⟩ same
  simpa [schema] using same

/-- `message basicCommonResponse`. -/
structure BasicCommonResponse where
  rid : Bytes := []
  cid : Bytes := []
  ok : Bool := false

/-- The fields of `basicCommonResponse`. -/
def BasicCommonResponse.schema [ProtobufRuntime] : Schema BasicCommonResponse where
  empty := {}
  slots := [
    ⟨1, stringKind, rid, fun message value => { message with rid := value }⟩,
    ⟨2, stringKind, cid, fun message value => { message with cid := value }⟩,
    ⟨3, Kind.flag, ok, fun message value => { message with ok := value }⟩]

theorem BasicCommonResponse.schema_lawful [ProtobufRuntime] : schema.Lawful := by
  refine .of_slots (by simp [schema, Slot.serves_iff]) (by simp [schema, Slot.Apart]) ?_
  rintro ⟨⟩ ⟨⟩ same
  simpa [schema] using same

/-! ## A message of any type -/

/-- A message, as the codec handles it.  Of a message of another type only the
name of its type and its bytes are kept. -/
inductive WireMessage where
  | openChannelRequst (message : OpenChannelRequst)
  | cloceChannelRequst (message : CloceChannelRequst)
  | declareExchangeRequest (message : DeclareExchangeRequest)
  | deleteExchangeRequst (message : DeleteExchangeRequst)
  | declareQueueRequst (message : DeclareQueueRequst)
  | deleteQueueRequest (message : DeleteQueueRequest)
  | queueBindRequest (message : QueueBindRequest)
  | queueUnbindRequest (message : QueueUnbindRequest)
  | basicPublishRequest (message : BasicPublishRequest)
  | basicAckRequest (message : BasicAckRequest)
  | basicConsumeRequest (message : BasicConsumeRequest)
  | basicCancelRequest (message : BasicCancelRequest)
  | basicConsumeResponse (message : BasicConsumeResponse)
  | basicCommonResponse (message : BasicCommonResponse)
  | other (type data : Bytes)

/-- A generated class: the name of its type, its fields, and its messages. -/
structure Generated where
  name : Bytes
  {content : Type}
  schema : Schema content
  wrap : content → WireMessage

/-- The generated classes of `proto.proto`. -/
def generated [ProtobufRuntime] : List Generated := [
  ⟨ascii "mq.openChannelRequst", OpenChannelRequst.schema, .openChannelRequst⟩,
  ⟨ascii "mq.cloceChannelRequst", CloceChannelRequst.schema, .cloceChannelRequst⟩,
  ⟨ascii "mq.declareExchangeRequest", DeclareExchangeRequest.schema, .declareExchangeRequest⟩,
  ⟨ascii "mq.deleteExchangeRequst", DeleteExchangeRequst.schema, .deleteExchangeRequst⟩,
  ⟨ascii "mq.declareQueueRequst", DeclareQueueRequst.schema, .declareQueueRequst⟩,
  ⟨ascii "mq.deleteQueueRequest", DeleteQueueRequest.schema, .deleteQueueRequest⟩,
  ⟨ascii "mq.queueBindRequest", QueueBindRequest.schema, .queueBindRequest⟩,
  ⟨ascii "mq.queueUnbindRequest", QueueUnbindRequest.schema, .queueUnbindRequest⟩,
  ⟨ascii "mq.basicPublishRequest", BasicPublishRequest.schema, .basicPublishRequest⟩,
  ⟨ascii "mq.basicAckRequest", BasicAckRequest.schema, .basicAckRequest⟩,
  ⟨ascii "mq.basicConsumeRequest", BasicConsumeRequest.schema, .basicConsumeRequest⟩,
  ⟨ascii "mq.basicCancelRequest", BasicCancelRequest.schema, .basicCancelRequest⟩,
  ⟨ascii "mq.basicConsumeResponse", BasicConsumeResponse.schema, .basicConsumeResponse⟩,
  ⟨ascii "mq.basicCommonResponse", BasicCommonResponse.schema, .basicCommonResponse⟩]

namespace WireMessage

/-- `GetTypeName`. -/
def typeName : WireMessage → Bytes
  | .openChannelRequst _ => ascii "mq.openChannelRequst"
  | .cloceChannelRequst _ => ascii "mq.cloceChannelRequst"
  | .declareExchangeRequest _ => ascii "mq.declareExchangeRequest"
  | .deleteExchangeRequst _ => ascii "mq.deleteExchangeRequst"
  | .declareQueueRequst _ => ascii "mq.declareQueueRequst"
  | .deleteQueueRequest _ => ascii "mq.deleteQueueRequest"
  | .queueBindRequest _ => ascii "mq.queueBindRequest"
  | .queueUnbindRequest _ => ascii "mq.queueUnbindRequest"
  | .basicPublishRequest _ => ascii "mq.basicPublishRequest"
  | .basicAckRequest _ => ascii "mq.basicAckRequest"
  | .basicConsumeRequest _ => ascii "mq.basicConsumeRequest"
  | .basicCancelRequest _ => ascii "mq.basicCancelRequest"
  | .basicConsumeResponse _ => ascii "mq.basicConsumeResponse"
  | .basicCommonResponse _ => ascii "mq.basicCommonResponse"
  | .other type _ => type

section

variable [ProtobufRuntime]

/-- `SerializeWithCachedSizesToArray`. -/
def serialize : WireMessage → Bytes
  | .openChannelRequst message => OpenChannelRequst.schema.serialize message
  | .cloceChannelRequst message => CloceChannelRequst.schema.serialize message
  | .declareExchangeRequest message => DeclareExchangeRequest.schema.serialize message
  | .deleteExchangeRequst message => DeleteExchangeRequst.schema.serialize message
  | .declareQueueRequst message => DeclareQueueRequst.schema.serialize message
  | .deleteQueueRequest message => DeleteQueueRequest.schema.serialize message
  | .queueBindRequest message => QueueBindRequest.schema.serialize message
  | .queueUnbindRequest message => QueueUnbindRequest.schema.serialize message
  | .basicPublishRequest message => BasicPublishRequest.schema.serialize message
  | .basicAckRequest message => BasicAckRequest.schema.serialize message
  | .basicConsumeRequest message => BasicConsumeRequest.schema.serialize message
  | .basicCancelRequest message => BasicCancelRequest.schema.serialize message
  | .basicConsumeResponse message => BasicConsumeResponse.schema.serialize message
  | .basicCommonResponse message => BasicCommonResponse.schema.serialize message
  | .other _ data => data

/-- All the texts of the message are UTF-8. -/
def isUtf8 : WireMessage → Bool
  | .openChannelRequst message => OpenChannelRequst.schema.valid message
  | .cloceChannelRequst message => CloceChannelRequst.schema.valid message
  | .declareExchangeRequest message => DeclareExchangeRequest.schema.valid message
  | .deleteExchangeRequst message => DeleteExchangeRequst.schema.valid message
  | .declareQueueRequst message => DeclareQueueRequst.schema.valid message
  | .deleteQueueRequest message => DeleteQueueRequest.schema.valid message
  | .queueBindRequest message => QueueBindRequest.schema.valid message
  | .queueUnbindRequest message => QueueUnbindRequest.schema.valid message
  | .basicPublishRequest message => BasicPublishRequest.schema.valid message
  | .basicAckRequest message => BasicAckRequest.schema.valid message
  | .basicConsumeRequest message => BasicConsumeRequest.schema.valid message
  | .basicCancelRequest message => BasicCancelRequest.schema.valid message
  | .basicConsumeResponse message => BasicConsumeResponse.schema.valid message
  | .basicCommonResponse message => BasicCommonResponse.schema.valid message
  | .other _ _ => true

/-- `createMessage` with `ParseFromArray`: the reader of a message type. -/
def createMessage (typeName : Bytes) : Option (Bytes → Option WireMessage) :=
  match generated.find? fun entry => entry.name = typeName with
  | some entry => some fun data =>
      (entry.schema.parse ProtobufRuntime.readFields data).map entry.wrap
  | none => (ProtobufRuntime.otherType typeName).map fun reads data =>
      if reads data then some (.other typeName data) else none

end

/-- The properties can be held by the generated class. -/
def PropertiesFit (properties : Option BasecProperties) : Prop :=
  ∀ basecProperties, properties = some basecProperties → IsInt basecProperties.deliverMode.code

/-- The message can be held by its generated class, and is one of `proto.proto`. -/
def Representable : WireMessage → Prop
  | .declareExchangeRequest message => IsInt message.exchangeType.code ∧ IsInt message.durable.code
  | .basicPublishRequest message => PropertiesFit message.properties
  | .basicConsumeResponse message => PropertiesFit message.properties
  | .other _ _ => False
  | _ => True

section

variable [ProtobufRuntime] {message : WireMessage}

theorem propertiesKind_fits {properties : Option BasecProperties} (fits : PropertiesFit properties) :
    propertiesKind.Fits properties := by
  intro basecProperties present
  have mode := deliveryModeKind_fits (fits basecProperties present)
  simp [Schema.Fits, BasecProperties.schema, stringKind, Kind.text, mode]

theorem generated_names : (generated.map Generated.name).Nodup := by
  change [
    ascii "mq.openChannelRequst",
    ascii "mq.cloceChannelRequst",
    ascii "mq.declareExchangeRequest",
    ascii "mq.deleteExchangeRequst",
    ascii "mq.declareQueueRequst",
    ascii "mq.deleteQueueRequest",
    ascii "mq.queueBindRequest",
    ascii "mq.queueUnbindRequest",
    ascii "mq.basicPublishRequest",
    ascii "mq.basicAckRequest",
    ascii "mq.basicConsumeRequest",
    ascii "mq.basicCancelRequest",
    ascii "mq.basicConsumeResponse",
    ascii "mq.basicCommonResponse"].Nodup
  decide

theorem generated_length : ∀ entry ∈ generated, 0 < entry.name.length ∧ entry.name.length ≤ 32 := by
  simp only [generated, List.forall_mem_cons, List.not_mem_nil, false_implies, implies_true,
    and_true]
  decide

/-- A generated class is found by the name of its type. -/
theorem createMessage_generated {entry : Generated} (member : entry ∈ generated) :
    createMessage entry.name = some fun data =>
      (entry.schema.parse ProtobufRuntime.readFields data).map entry.wrap := by
  have found : (generated.find? fun other => other.name = entry.name) = some entry := by
    cases result : generated.find? fun other => other.name = entry.name with
    | none =>
        have missing := List.find?_eq_none.mp result entry member
        simp at missing
    | some other =>
        have there := List.mem_of_find?_eq_some result
        have name := List.find?_some result
        rw [decide_eq_true_eq] at name
        exact congrArg some (List.inj_on_of_nodup_map generated_names there member name)
  rw [createMessage, found]

theorem generated_lawful (reads : RuntimeReads) :
    ∀ entry ∈ generated, entry.schema.Lawful := by
  simp only [generated, List.forall_mem_cons, List.not_mem_nil, false_implies, implies_true,
    and_true]
  exact ⟨OpenChannelRequst.schema_lawful,
    CloceChannelRequst.schema_lawful,
    DeclareExchangeRequest.schema_lawful reads,
    DeleteExchangeRequst.schema_lawful,
    DeclareQueueRequst.schema_lawful reads,
    DeleteQueueRequest.schema_lawful,
    QueueBindRequest.schema_lawful,
    QueueUnbindRequest.schema_lawful,
    BasicPublishRequest.schema_lawful reads,
    BasicAckRequest.schema_lawful,
    BasicConsumeRequest.schema_lawful,
    BasicCancelRequest.schema_lawful,
    BasicConsumeResponse.schema_lawful reads,
    BasicCommonResponse.schema_lawful⟩

/-- A class makes messages of its own type, and looks at their texts. -/
theorem generated_wrap : ∀ entry ∈ generated, ∀ inner,
    (entry.wrap inner).typeName = entry.name ∧
      (entry.wrap inner).isUtf8 = entry.schema.valid inner := by
  simp only [generated, List.forall_mem_cons, List.not_mem_nil, false_implies, implies_true,
    and_true]
  simp [typeName, isUtf8]

/-- A message that can be held by its class fits the fields of its schema, and
its class is one of the generated ones. -/
theorem representable_generated (representable : message.Representable) :
    ∃ entry ∈ generated, ∃ inner, message = entry.wrap inner ∧ message.typeName = entry.name ∧
      message.serialize = entry.schema.serialize inner ∧ entry.schema.Fits inner := by
  cases message with
  | declareExchangeRequest inner =>
      refine ⟨_, List.mem_of_getElem? (i := 2) rfl, inner, rfl, rfl, rfl, ?_⟩
      simp [Schema.Fits, DeclareExchangeRequest.schema, stringKind, Kind.text, Kind.flag, argsKind,
        Kind.dictionary, exchangeTypeKind_fits representable.1,
        deliveryModeKind_fits representable.2]
  | basicPublishRequest inner =>
      refine ⟨_, List.mem_of_getElem? (i := 8) rfl, inner, rfl, rfl, rfl, ?_⟩
      simp [Schema.Fits, BasicPublishRequest.schema, stringKind, Kind.text,
        propertiesKind_fits representable]
  | basicConsumeResponse inner =>
      refine ⟨_, List.mem_of_getElem? (i := 12) rfl, inner, rfl, rfl, rfl, ?_⟩
      simp [Schema.Fits, BasicConsumeResponse.schema, stringKind, Kind.text,
        propertiesKind_fits representable]
  | openChannelRequst inner =>
      refine ⟨_, List.mem_of_getElem? (i := 0) rfl, inner, rfl, rfl, rfl, ?_⟩
      simp [Schema.Fits, OpenChannelRequst.schema, stringKind, Kind.text]
  | cloceChannelRequst inner =>
      refine ⟨_, List.mem_of_getElem? (i := 1) rfl, inner, rfl, rfl, rfl, ?_⟩
      simp [Schema.Fits, CloceChannelRequst.schema, stringKind, Kind.text]
  | deleteExchangeRequst inner =>
      refine ⟨_, List.mem_of_getElem? (i := 3) rfl, inner, rfl, rfl, rfl, ?_⟩
      simp [Schema.Fits, DeleteExchangeRequst.schema, stringKind, Kind.text]
  | declareQueueRequst inner =>
      refine ⟨_, List.mem_of_getElem? (i := 4) rfl, inner, rfl, rfl, rfl, ?_⟩
      simp [Schema.Fits, DeclareQueueRequst.schema, stringKind, Kind.text, Kind.flag, argsKind,
        Kind.dictionary]
  | deleteQueueRequest inner =>
      refine ⟨_, List.mem_of_getElem? (i := 5) rfl, inner, rfl, rfl, rfl, ?_⟩
      simp [Schema.Fits, DeleteQueueRequest.schema, stringKind, Kind.text]
  | queueBindRequest inner =>
      refine ⟨_, List.mem_of_getElem? (i := 6) rfl, inner, rfl, rfl, rfl, ?_⟩
      simp [Schema.Fits, QueueBindRequest.schema, stringKind, Kind.text]
  | queueUnbindRequest inner =>
      refine ⟨_, List.mem_of_getElem? (i := 7) rfl, inner, rfl, rfl, rfl, ?_⟩
      simp [Schema.Fits, QueueUnbindRequest.schema, stringKind, Kind.text]
  | basicAckRequest inner =>
      refine ⟨_, List.mem_of_getElem? (i := 9) rfl, inner, rfl, rfl, rfl, ?_⟩
      simp [Schema.Fits, BasicAckRequest.schema, stringKind, Kind.text]
  | basicConsumeRequest inner =>
      refine ⟨_, List.mem_of_getElem? (i := 10) rfl, inner, rfl, rfl, rfl, ?_⟩
      simp [Schema.Fits, BasicConsumeRequest.schema, stringKind, Kind.text, Kind.flag]
  | basicCancelRequest inner =>
      refine ⟨_, List.mem_of_getElem? (i := 11) rfl, inner, rfl, rfl, rfl, ?_⟩
      simp [Schema.Fits, BasicCancelRequest.schema, stringKind, Kind.text]
  | basicCommonResponse inner =>
      refine ⟨_, List.mem_of_getElem? (i := 13) rfl, inner, rfl, rfl, rfl, ?_⟩
      simp [Schema.Fits, BasicCommonResponse.schema, stringKind, Kind.text, Kind.flag]
  | other type data => exact representable.elim

theorem typeName_bounds (representable : message.Representable) :
    0 < message.typeName.length ∧ message.typeName.length ≤ 32 := by
  rcases representable_generated representable with ⟨entry, member, _, _, name, _⟩
  rw [name]
  exact generated_length entry member

/-- The class of a message reads what was written if the texts are UTF-8. -/
theorem parse_generated (reads : RuntimeReads) (representable : message.Representable)
    (limit : message.serialize.length < sizeLimit) :
    ∃ entry ∈ generated, message.typeName = entry.name ∧
      (entry.schema.parse ProtobufRuntime.readFields message.serialize).map entry.wrap =
        if message.isUtf8 then some message else none := by
  rcases representable_generated representable with
    ⟨entry, member, inner, same, name, written, fits⟩
  have wrapped := (generated_wrap entry member inner).2
  rw [written] at limit
  refine ⟨entry, member, name, ?_⟩
  rw [written, (generated_lawful reads entry member).parse_serialize reads fits limit, same, wrapped]
  cases entry.schema.valid inner <;> rfl

/-- A message that was written is read back if its texts are UTF-8, and not at
all otherwise. -/
theorem createMessage_serialize (reads : RuntimeReads) (representable : message.Representable)
    (limit : message.serialize.length < sizeLimit) :
    ∃ parse, createMessage message.typeName = some parse ∧
      parse message.serialize = if message.isUtf8 then some message else none := by
  rcases parse_generated reads representable limit with ⟨entry, member, name, parsed⟩
  rw [name]
  exact ⟨_, createMessage_generated member, parsed⟩

/-- A client declares an exchange, with an argument. -/
def declaring : WireMessage :=
  .declareExchangeRequest {
    rid := ascii "1", cid := ascii "c", exchangeName := ascii "e", exchangeType := .topic
    durable := .durable, args := (∅ : Dictionary Bytes Bytes).insert (ascii "k") (ascii "v") }

omit [ProtobufRuntime] in
theorem declaring_reads_back :
    ∃ parse, @createMessage asciiRuntime declaring.typeName = some parse ∧
      parse (@serialize asciiRuntime declaring) =
        if @isUtf8 asciiRuntime declaring then some declaring else none :=
  @createMessage_serialize asciiRuntime declaring asciiRuntime_reads
    ⟨Or.inl (by decide), Or.inl (by decide)⟩ (by decide +kernel)

/-- A message that was read came from the generated class of that name, or is of
another type. -/
theorem createMessage_cases {typeName : Bytes} {parse : Bytes → Option WireMessage}
    (created : createMessage typeName = some parse) {data : Bytes}
    (parsed : parse data = some message) :
    (∃ entry ∈ generated, entry.name = typeName ∧ ∃ inner, message = entry.wrap inner ∧
      entry.schema.parse ProtobufRuntime.readFields data = some inner) ∨
    message = .other typeName data := by
  unfold createMessage at created
  cases found : generated.find? fun entry => entry.name = typeName with
  | some entry =>
      rw [found] at created
      cases created
      have name := List.find?_some found
      rw [decide_eq_true_eq] at name
      rcases Option.map_eq_some_iff.mp parsed with ⟨inner, read, rfl⟩
      exact Or.inl ⟨entry, List.mem_of_find?_eq_some found, name, inner, rfl, read⟩
  | none =>
      rw [found] at created
      rcases Option.map_eq_some_iff.mp created with ⟨accepts, _, rfl⟩
      cases accepted : accepts data with
      | false =>
          simp only [accepted, Bool.false_eq_true, if_false] at parsed
          cases parsed
      | true =>
          simp only [accepted, if_true, Option.some.injEq] at parsed
          exact Or.inr parsed.symm

/-- A message that was read is of the type that was asked for, and its texts are
UTF-8. -/
theorem createMessage_sound (reads : RuntimeReads) {typeName : Bytes}
    {parse : Bytes → Option WireMessage} (created : createMessage typeName = some parse)
    {data : Bytes} (parsed : parse data = some message) :
    message.typeName = typeName ∧ message.isUtf8 = true := by
  rcases createMessage_cases created parsed with ⟨entry, member, name, inner, rfl, read⟩ | rfl
  · have wrapped := generated_wrap entry member inner
    rw [wrapped.1, wrapped.2]
    exact ⟨name, (generated_lawful reads entry member).parse_valid read⟩
  · exact ⟨rfl, rfl⟩

end

end WireMessage

end ProtobufMq
