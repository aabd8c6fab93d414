import ProtobufMq.Foundation.Wire

namespace ProtobufMq

open Foundation

/-!
# The messages of `msg.proto`

Strings are byte sequences: a C++ string may hold any byte, the zero byte
included, and neither the maps of the server nor its files look inside one.
The two enumerations are open, as in every third-version schema: a value
received from the network that is not listed is kept, so each enumeration has
a constructor for the unlisted values.

`SerializeAsString` follows the generated code field by field.  The parser of
the protobuf runtime is not part of the repository, so it is the parameter
`Protobuf`; what the server relies on, that parsing undoes serialising, is the
hypothesis `Undoes` of the results that need it.  It is about payloads whose
texts are UTF-8, for the parser refuses others, and that take less than 2 GiB.
`wireFormat` is a parser for the same format that satisfies it.
-/

/-- The bytes of a text whose characters are all below 256. -/
def ascii (text : String) : Bytes :=
  text.toList.map fun character => UInt8.ofNat character.toNat

/-- `enum ExchangeType`. -/
inductive ExchangeType where
  | unknowType
  | direct
  | fanout
  | topic
  | unlisted (excess : Nat)
  deriving DecidableEq, Repr

/-- `enum DeliveryMode`. -/
inductive DeliveryMode where
  | unknowMode
  | undurable
  | durable
  | unlisted (excess : Nat)
  deriving DecidableEq, Repr

/-- The number that stands for an exchange type. -/
def ExchangeType.code : ExchangeType → Nat
  | .unknowType => 0
  | .direct => 1
  | .fanout => 2
  | .topic => 3
  | .unlisted excess => excess + 4

/-- `static_cast<ExchangeType>`. -/
def ExchangeType.ofCode : Nat → ExchangeType
  | 0 => .unknowType
  | 1 => .direct
  | 2 => .fanout
  | 3 => .topic
  | excess + 4 => .unlisted excess

/-- The number that stands for a delivery mode.  A negative number is taken in
the unsigned form in which it travels. -/
def DeliveryMode.code : DeliveryMode → Nat
  | .unknowMode => 0
  | .undurable => 1
  | .durable => 2
  | .unlisted excess => excess + 3

/-- `static_cast<DeliveryMode>`. -/
def DeliveryMode.ofCode : Nat → DeliveryMode
  | 0 => .unknowMode
  | 1 => .undurable
  | 2 => .durable
  | excess + 3 => .unlisted excess

@[simp] theorem ExchangeType.ofCode_code (type : ExchangeType) : ofCode type.code = type := by
  cases type <;> rfl

@[simp] theorem DeliveryMode.ofCode_code (mode : DeliveryMode) : ofCode mode.code = mode := by
  cases mode <;> rfl

/-- `message BasecProperties`. -/
structure BasecProperties where
  id : Bytes := []
  deliverMode : DeliveryMode := .unknowMode
  rotingKey : Bytes := []
  deriving DecidableEq, Repr

/-- `message Message.Payload`.  The properties are a submessage, which may be
absent; an absent one reads as its default. -/
structure Payload where
  basecProperties : Option BasecProperties := none
  body : Bytes := []
  valid : Bytes := []
  deriving DecidableEq, Repr

/-- `Payload::properties()`. -/
def Payload.properties (payload : Payload) : BasecProperties :=
  payload.basecProperties.getD {}

/-- `Payload::set_valid`. -/
def Payload.setValid (payload : Payload) (valid : Bytes) : Payload :=
  { payload with valid := valid }

@[simp] theorem Payload.properties_setValid (payload : Payload) (valid : Bytes) :
    (payload.setValid valid).properties = payload.properties := rfl

@[simp] theorem Payload.body_setValid (payload : Payload) (valid : Bytes) :
    (payload.setValid valid).body = payload.body := rfl

@[simp] theorem Payload.valid_setValid (payload : Payload) (valid : Bytes) :
    (payload.setValid valid).valid = valid := rfl

/-- `message Message`.  `offset` and `length` are 32-bit unsigned fields. -/
structure Message where
  payload : Payload
  offset : Nat := 0
  length : Nat := 0
  deriving DecidableEq, Repr

/-! ## Serialising -/

/-- A string field is written unless it is empty. -/
def stringField (tag : Nat) (text : Bytes) : List Field :=
  if text = [] then [] else [⟨tag, .delimited text⟩]

/-- An enumeration field is written unless it is zero. -/
def enumField (tag : Nat) (code : Nat) : List Field :=
  if code = 0 then [] else [⟨tag, .number code⟩]

/-- The fields written by `BasecProperties::_InternalSerialize`. -/
def BasecProperties.fields (properties : BasecProperties) : List Field :=
  stringField 1 properties.id ++ enumField 2 properties.deliverMode.code ++
    stringField 3 properties.rotingKey

/-- The fields written by `Message_Payload::_InternalSerialize`. -/
def Payload.fields (payload : Payload) : List Field :=
  (match payload.basecProperties with
    | none => []
    | some properties => [⟨1, .delimited (encodeFields properties.fields)⟩]) ++
    stringField 2 payload.body ++ stringField 3 payload.valid

/-- `Payload::SerializeAsString`. -/
def Payload.serialize (payload : Payload) : Bytes :=
  encodeFields payload.fields

/-- A body is written as it is. -/
theorem Payload.body_length_le (payload : Payload) :
    payload.body.length ≤ payload.serialize.length := by
  unfold serialize fields stringField
  simp only [encodeFields, List.flatMap_append, List.length_append]
  by_cases empty : payload.body = []
  · rw [empty]
    exact Nat.zero_le _
  · simp only [empty, if_false, List.flatMap_cons, List.flatMap_nil, List.append_nil, Field.encode,
      List.length_append]
    omega

/-- Two texts of one length are written with one length. -/
theorem encodeFields_stringField_length (tag : Nat) {first second : Bytes}
    (sameLength : first.length = second.length) :
    (encodeFields (stringField tag first)).length =
      (encodeFields (stringField tag second)).length := by
  unfold stringField
  by_cases empty : first = []
  · have otherEmpty : second = [] := List.length_eq_zero_iff.mp (by rw [← sameLength, empty]; rfl)
    rw [empty, otherEmpty]
  · have otherNonempty : second ≠ [] := by
      intro otherEmpty
      exact empty (List.length_eq_zero_iff.mp (by rw [sameLength, otherEmpty]; rfl))
    rw [if_neg empty, if_neg otherNonempty]
    simp only [encodeFields, List.flatMap_cons, List.flatMap_nil, List.append_nil, Field.encode,
      List.length_append, sameLength]

/-- Changing the validity mark to another of the same length leaves the
serialised length as it was. -/
theorem Payload.serialize_setValid_length (payload : Payload) {valid : Bytes}
    (sameLength : valid.length = payload.valid.length) :
    (payload.setValid valid).serialize.length = payload.serialize.length := by
  unfold serialize fields
  simp only [encodeFields, List.flatMap_append, List.length_append]
  exact congrArg _ (encodeFields_stringField_length 3 sameLength)

/-! ## What can be read back -/

/-- The bytes are a text: the UTF-8 form of some characters. -/
def IsText (bytes : Bytes) : Prop :=
  ∃ text : List Char, text.flatMap String.utf8EncodeChar = bytes

/-- All bytes are below 128. -/
def IsAscii (bytes : Bytes) : Prop :=
  ∀ byte ∈ bytes, byte.toNat < 128

instance : DecidablePred IsAscii := fun bytes => List.decidableBAll _ bytes

theorem isText_of_ascii {bytes : Bytes} (low : IsAscii bytes) : IsText bytes := by
  refine ⟨bytes.map Char.ofUInt8, ?_⟩
  induction bytes with
  | nil => rfl
  | cons byte rest inductionHypothesis =>
      rw [IsAscii, List.forall_mem_cons] at low
      have code : (Char.ofUInt8 byte).val.toNat = byte.toNat := rfl
      rw [List.map_cons, List.flatMap_cons, inductionHypothesis low.2, String.utf8EncodeChar, code,
        if_pos (Nat.le_of_lt_succ low.1), UInt8.ofNat_toNat, List.singleton_append]

/-- The parser accepts the serialised payload: its strings are texts, and it takes
less than 2 GiB. -/
structure Payload.Sound (payload : Payload) : Prop where
  id : IsText payload.properties.id
  rotingKey : IsText payload.properties.rotingKey
  body : IsText payload.body
  valid : IsText payload.valid
  small : payload.serialize.length < 0x80000000

theorem Payload.sound_of_ascii {payload : Payload} (small : payload.serialize.length < 0x80000000)
    (low : IsAscii (payload.properties.id ++ payload.properties.rotingKey ++ payload.body ++
      payload.valid)) : payload.Sound := by
  simp only [IsAscii, List.mem_append, or_imp, forall_and] at low
  exact ⟨isText_of_ascii low.1.1.1, isText_of_ascii low.1.1.2, isText_of_ascii low.1.2,
    isText_of_ascii low.2, small⟩

/-- Another validity mark of the same length makes no difference. -/
theorem Payload.Sound.setValid {payload : Payload} (sound : payload.Sound) {valid : Bytes}
    (text : IsText valid) (sameLength : valid.length = payload.valid.length) :
    (payload.setValid valid).Sound :=
  ⟨sound.id, sound.rotingKey, sound.body, text,
    (payload.serialize_setValid_length sameLength).trans_lt sound.small⟩

/-! ## Parsing -/

/-- The protobuf runtime, as far as the server uses it: `ParseFromString` on an
empty payload gives its result and what it leaves in the payload. -/
class Protobuf where
  parseFromString : Bytes → Bool × Payload

/-- Parsing undoes serialising: a serialised payload that is accepted is read as
itself, and one that is sound is accepted. -/
structure Undoes [Protobuf] : Prop where
  reads : ∀ {payload result : Payload},
    Protobuf.parseFromString payload.serialize = (true, result) → result = payload
  accepts : ∀ {payload : Payload}, payload.Sound →
    (Protobuf.parseFromString payload.serialize).1 = true

/-- A sound payload is read back. -/
theorem Undoes.parse [Protobuf] (undoes : Undoes) {payload : Payload} (sound : payload.Sound) :
    Protobuf.parseFromString payload.serialize = (true, payload) := by
  have accepted := undoes.accepts sound
  cases parsed : Protobuf.parseFromString payload.serialize with
  | mk accepts result =>
      rw [parsed] at accepted
      cases accepted
      rw [undoes.reads parsed]

/-- Store one field of the properties.  A field of an unknown number or of the
wrong wire type is kept aside and changes nothing here. -/
def BasecProperties.setField (properties : BasecProperties) (field : Field) : BasecProperties :=
  match field.tag, field.value with
  | 1, .delimited text => { properties with id := text }
  | 2, .number code => { properties with deliverMode := .ofCode code }
  | 3, .delimited text => { properties with rotingKey := text }
  | _, _ => properties

/-- Store one field of the payload.  A submessage is merged into the one that
is there. -/
def Payload.setField (state : Bool × Payload) (field : Field) : Bool × Payload :=
  match field.tag, field.value with
  | 1, .delimited data =>
      let read := decodeFields data
      (state.1 && read.1, { state.2 with
        basecProperties := some (read.2.foldl BasecProperties.setField state.2.properties) })
  | 2, .delimited text => (state.1, { state.2 with body := text })
  | 3, .delimited text => (state.1, { state.2 with valid := text })
  | _, _ => state

/-- A parser of the wire format. -/
instance wireFormat : Protobuf where
  parseFromString := fun data =>
    let read := decodeFields data
    read.2.foldl Payload.setField (read.1, {})

private theorem foldl_properties_fields (properties : BasecProperties) :
    properties.fields.foldl BasecProperties.setField {} = properties := by
  rcases properties with ⟨id, deliverMode, rotingKey⟩
  unfold BasecProperties.fields stringField enumField
  by_cases noId : id = [] <;> by_cases noMode : deliverMode.code = 0 <;>
    by_cases noKey : rotingKey = [] <;>
    simp only [noId, noMode, noKey, if_true, if_false, List.nil_append, List.append_nil,
      List.cons_append, List.foldl_cons, List.foldl_nil, BasecProperties.setField,
      DeliveryMode.ofCode_code]
  all_goals
    cases deliverMode <;> simp_all [DeliveryMode.code]

theorem wireFormat_reads (payload : Payload) :
    wireFormat.parseFromString payload.serialize = (true, payload) := by
  rcases payload with ⟨basecProperties, body, valid⟩
  change (decodeFields (encodeFields _)).2.foldl Payload.setField
    ((decodeFields (encodeFields _)).1, {}) = _
  rw [decodeFields_encodeFields]
  unfold Payload.fields stringField
  cases basecProperties with
  | none =>
      by_cases noBody : body = [] <;> by_cases noValid : valid = [] <;>
        simp only [noBody, noValid, if_true, if_false, List.nil_append, List.append_nil,
          List.singleton_append, List.foldl_cons, List.foldl_nil, Payload.setField]
  | some properties =>
      have merged : properties.fields.foldl BasecProperties.setField
          (Payload.properties {}) = properties := foldl_properties_fields properties
      by_cases noBody : body = [] <;> by_cases noValid : valid = [] <;>
        simp only [noBody, noValid, if_true, if_false, List.nil_append, List.append_nil,
          List.cons_append, List.foldl_cons, List.foldl_nil, Payload.setField,
          decodeFields_encodeFields, Bool.and_self, merged]

theorem wireFormat_undoes : @Undoes wireFormat where
  reads {payload} {_} parsed := (congrArg Prod.snd ((wireFormat_reads payload).symm.trans parsed)).symm
  accepts {payload} _ := congrArg Prod.fst (wireFormat_reads payload)

end ProtobufMq
