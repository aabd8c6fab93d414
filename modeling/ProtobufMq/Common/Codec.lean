import ProtobufMq.Common.Buffer
import ProtobufMq.Common.Proto
import ProtobufMq.Foundation.Adler

namespace ProtobufMq

open Foundation

/-!
# `ProtobufCodec`: messages in the bytes of a connection

A message travels as a frame: the length of the rest, the length of the name of
its type, that name with a zero byte, the message, and a checksum of everything
between the two ends.  All numbers have 32 bits with a sign.

Receiving goes through the bytes that are there, frame by frame.  A frame that
is not whole is left for later.  At the first one that is wrong the loop stops
and leaves it where it is, so that a later call finds it again.

A read that leaves the frame is the result `none`, as is a failed assertion.
-/

/-- `zlib`: the checksum of some bytes, `adler32` continued from one. -/
class Zlib where
  adler32 : Bytes → Nat

/-- `adler32` as `zlib` documents it. -/
@[reducible] def adlerZlib : Zlib :=
  ⟨Adler.checksum⟩

namespace ProtobufCodec

/-- `ErrorCode`, without `kNoError`. -/
inductive ErrorCode where
  | kInvalidLength
  | kCheckSumError
  | kInvalidNameLen
  | kUnknownMessageType
  | kParseError
  deriving DecidableEq, Repr

/-- `kHeaderLen`. -/
def kHeaderLen : Int := 4

/-- `kMinMessageLen`. -/
def kMinMessageLen : Int := 2 * kHeaderLen + 2

/-- `kMaxMessageLen`. -/
def kMaxMessageLen : Int := 64 * 1024 * 1024

/-- A call back: to `messageCallback_` or to `errorCallback_`. -/
inductive Callback where
  | message (message : WireMessage)
  | error (errorCode : ErrorCode)

/-! ## Sending -/

variable [ProtobufRuntime] [Zlib]

/-- The checksum as a number of 32 bits. -/
def checkSum (bytes : Bytes) : Int :=
  int32 (Zlib.adler32 bytes)

/-- `ProtobufCodec::fillEmptyBuffer`. -/
def fillEmptyBuffer (buf : Buffer) (message : WireMessage) : Option Buffer := do
  guard (buf.readableBytes = 0)
  let typeName := message.typeName
  let nameLen := int32 (typeName.length + 1)
  let buf ← buf.appendInt32 nameLen
  let buf ← buf.append ((typeName ++ [0]).take nameLen.toNat)
  let data := message.serialize
  -- `ToIntSize` ends the program if the size is no `int`
  guard (data.length < sizeLimit)
  let buf ← buf.ensureWritableBytes data.length
  let buf ← buf.copyIn data
  let buf ← buf.hasWritten data.length
  let buf ← buf.appendInt32 (checkSum buf.contents)
  guard ((buf.readableBytes : Int) = kHeaderLen + nameLen + data.length + kHeaderLen)
  buf.prepend (networkBytes (int32 buf.readableBytes))

/-- `ProtobufCodec::send`: the bytes that go to the connection. -/
def send (message : WireMessage) : Option Bytes :=
  (fillEmptyBuffer (.new 1024) message).map Buffer.contents

/-! ## Receiving -/

/-- The bytes from a place of the frame to another. -/
def range (buf : Bytes) (start stop : Int) : Option Bytes :=
  if 0 ≤ start ∧ start ≤ stop then readAt buf start.toNat (stop - start).toNat else none

/-- `asInt32` at a place of the frame. -/
def asInt32At (buf : Bytes) (start : Int) : Option Int :=
  (range buf start (start + kHeaderLen)).map asInt32

/-- `ProtobufCodec::parse`. -/
def parse (buf : Bytes) (len : Int) : Option (Except ErrorCode WireMessage) := do
  let expectedCheckSum ← asInt32At buf (len - kHeaderLen)
  let body ← range buf 0 (len - kHeaderLen)
  if checkSum body = expectedCheckSum then
    let nameLen ← asInt32At buf 0
    if 2 ≤ nameLen ∧ nameLen ≤ len - 2 * kHeaderLen then
      let typeName ← range buf kHeaderLen (kHeaderLen + nameLen - 1)
      match WireMessage.createMessage typeName with
      | some parseFromArray =>
          let dataLen := len - nameLen - 2 * kHeaderLen
          let data ← range buf (kHeaderLen + nameLen) (kHeaderLen + nameLen + dataLen)
          match parseFromArray data with
          | some message => return .ok message
          | none => return .error .kParseError
      | none => return .error .kUnknownMessageType
    else return .error .kInvalidNameLen
  else return .error .kCheckSumError

/-- The loop of `onMessage`.  Every turn but the last takes bytes away, so there
are no more turns than bytes. -/
def onMessageLoop : Nat → Buffer → Option (List Callback × Buffer)
  | 0, buf => some ([], buf)
  | turns + 1, buf =>
      if kMinMessageLen + kHeaderLen ≤ buf.readableBytes then do
        let len ← buf.peekInt32
        if kMaxMessageLen < len ∨ len < kMinMessageLen then
          return ([.error .kInvalidLength], buf)
        else if len + kHeaderLen ≤ buf.readableBytes then do
          match ← parse ((buf.contents.drop kHeaderLen.toNat).take len.toNat) len with
          | .ok message =>
              let buf ← buf.retrieve (kHeaderLen + len).toNat
              let (callbacks, buf) ← onMessageLoop turns buf
              return (.message message :: callbacks, buf)
          | .error errorCode => return ([.error errorCode], buf)
        else return ([], buf)
      else return ([], buf)

/-- `ProtobufCodec::onMessage`. -/
def onMessage (buf : Buffer) : Option (List Callback × Buffer) :=
  onMessageLoop buf.readableBytes buf

/-! ## The layout of a frame -/

/-- What the checksum is taken of. -/
def body (typeName : Bytes) (mark : UInt8) (data : Bytes) : Bytes :=
  networkBytes (typeName.length + 1) ++ (typeName ++ mark :: data)

/-- A body with its checksum. -/
def sealed (body : Bytes) : Bytes :=
  body ++ networkBytes (checkSum body)

/-- The length of what follows, and that. -/
def framed (content : Bytes) : Bytes :=
  networkBytes content.length ++ content

/-- The frame of a message. -/
def frame (message : WireMessage) : Bytes :=
  framed (sealed (body message.typeName 0 message.serialize))

/-- What the reader of the named type makes of the data. -/
def decoded (typeName data : Bytes) : Except ErrorCode WireMessage :=
  match WireMessage.createMessage typeName with
  | none => .error .kUnknownMessageType
  | some parseFromArray =>
      match parseFromArray data with
      | none => .error .kParseError
      | some message => .ok message

omit [ProtobufRuntime] [Zlib] in
theorem length_body (typeName : Bytes) (mark : UInt8) (data : Bytes) :
    (body typeName mark data).length = 4 + typeName.length + 1 + data.length := by
  simp only [body, List.length_append, length_networkBytes, List.length_cons]
  omega

omit [ProtobufRuntime] in
theorem length_sealed (body : Bytes) : (sealed body).length = body.length + 4 := by
  rw [sealed, List.length_append, length_networkBytes]

omit [ProtobufRuntime] [Zlib] in
theorem length_framed (content : Bytes) : (framed content).length = 4 + content.length := by
  rw [framed, List.length_append, length_networkBytes]

omit [ProtobufRuntime] in
theorem length_sealed_body (typeName : Bytes) (mark : UInt8) (data : Bytes) :
    (sealed (body typeName mark data)).length = typeName.length + data.length + 9 := by
  rw [length_sealed, length_body]
  omega

/-! ## Reading within the frame -/

section Reading

omit [ProtobufRuntime] [Zlib]

variable {before data after : Bytes} {start stop : Int}

theorem range_middle (starts : start = before.length) (stops : stop = before.length + data.length) :
    range (before ++ data ++ after) start stop = some data := by
  have ordered : 0 ≤ start ∧ start ≤ stop := by omega
  have position : start.toNat = before.length := by omega
  have length : (stop - start).toNat = data.length := by omega
  rw [range, if_pos ordered, position, length, readAt_of_append]

theorem range_front (stops : stop = data.length) : range (data ++ after) 0 stop = some data := by
  have total : stop = ([] : Bytes).length + data.length := by
    rw [stops, List.length_nil, Nat.cast_zero, Int.zero_add]
  have whole : range ([] ++ data ++ after) 0 stop = some data := range_middle rfl total
  rwa [List.nil_append] at whole

theorem range_back (starts : start = before.length) (stops : stop = before.length + data.length) :
    range (before ++ data) start stop = some data := by
  have whole : range (before ++ data ++ []) start stop = some data := range_middle starts stops
  rwa [List.append_nil] at whole

end Reading

/-- What the length of the name, the bytes behind it and the checksum say. -/
def judged (number middle sum : Bytes) : Except ErrorCode WireMessage :=
  if checkSum (number ++ middle) = asInt32 sum then
    if 2 ≤ asInt32 number ∧ asInt32 number ≤ middle.length then
      decoded (middle.take ((asInt32 number).toNat - 1)) (middle.drop (asInt32 number).toNat)
    else .error .kInvalidNameLen
  else .error .kCheckSumError

omit [ProtobufRuntime] [Zlib] in
/-- The name, the mark behind it, and the data. -/
theorem exists_named {middle : Bytes} {size : Nat} (large : 2 ≤ size) (fits : size ≤ middle.length) :
    ∃ typeName mark data, middle = typeName ++ mark :: data ∧ typeName.length + 1 = size := by
  cases ending : middle.drop (size - 1) with
  | nil =>
      have none := List.drop_eq_nil_iff.mp ending
      omega
  | cons mark data =>
      refine ⟨middle.take (size - 1), mark, data, ?_, ?_⟩
      · rw [← ending, List.take_append_drop]
      · rw [List.length_take]
        omega

omit [ProtobufRuntime] [Zlib] in
/-- The name and the data behind it are read within the frame. -/
theorem range_named {number middle sum : Bytes} {nameLen : Int} (numberLength : number.length = 4)
    (named : 2 ≤ nameLen ∧ nameLen ≤ middle.length) :
    range (number ++ middle ++ sum) kHeaderLen (kHeaderLen + nameLen - 1) =
        some (middle.take (nameLen.toNat - 1)) ∧
      range (number ++ middle ++ sum) (kHeaderLen + nameLen)
        (kHeaderLen + nameLen + ((middle.length + 8 : Int) - nameLen - 2 * kHeaderLen)) =
          some (middle.drop nameLen.toNat) := by
  rcases Int.eq_ofNat_of_zero_le (Int.le_trans (by decide) named.1) with ⟨size, rfl⟩
  have large : 2 ≤ size := Int.ofNat_le.mp named.1
  have fits : size ≤ middle.length := Int.ofNat_le.mp named.2
  have nameLength : (middle.take (size - 1)).length = size - 1 := by
    rw [List.length_take]
    omega
  have markLength : (middle.take size).length = size := by
    rw [List.length_take]
    omega
  have dataLength : (middle.drop size).length = middle.length - size := List.length_drop
  rw [Int.toNat_natCast]
  constructor
  · have split : number ++ middle ++ sum =
        number ++ middle.take (size - 1) ++ (middle.drop (size - 1) ++ sum) := by
      rw [List.append_assoc number (middle.take (size - 1)), ← List.append_assoc (middle.take _),
        List.take_append_drop, List.append_assoc]
    rw [split]
    apply range_middle
    · rw [numberLength]
      rfl
    · rw [numberLength, nameLength, kHeaderLen]
      omega
  · have split : number ++ middle ++ sum =
        (number ++ middle.take size) ++ middle.drop size ++ sum := by
      rw [List.append_assoc number (middle.take size), List.take_append_drop]
    rw [split]
    apply range_middle
    · rw [List.length_append, numberLength, markLength, kHeaderLen]
      omega
    · rw [List.length_append, numberLength, markLength, dataLength, kHeaderLen]
      omega

/-- `parse` stays within a frame that has the two numbers, and it says of the
frame what these numbers and its bytes say. -/
theorem parse_eq {number middle sum : Bytes} (numberLength : number.length = 4)
    (sumLength : sum.length = 4) :
    parse (number ++ middle ++ sum) (middle.length + 8) = some (judged number middle sum) := by
  have bodyLength : (number ++ middle).length = middle.length + 4 := by
    rw [List.length_append, numberLength, Nat.add_comm]
  have readSum : asInt32At (number ++ middle ++ sum) (middle.length + 8 - kHeaderLen) =
      some (asInt32 sum) := by
    rw [asInt32At, range_back, Option.map_some]
    · rw [bodyLength, kHeaderLen]
      omega
    · rw [bodyLength, sumLength, kHeaderLen]
      omega
  have readBody : range (number ++ middle ++ sum) 0 (middle.length + 8 - kHeaderLen) =
      some (number ++ middle) := by
    apply range_front
    rw [bodyLength, kHeaderLen]
    omega
  have readNameLen : asInt32At (number ++ middle ++ sum) 0 = some (asInt32 number) := by
    rw [asInt32At, List.append_assoc, range_front, Option.map_some]
    rw [numberLength]
    rfl
  unfold parse judged
  -- the kernel is not to compute with the numbers
  generalize asInt32 sum = expectedCheckSum at readSum ⊢
  generalize asInt32 number = nameLen at readNameLen ⊢
  have same : (middle.length : Int) + 8 - 2 * kHeaderLen = middle.length :=
    Int.add_sub_cancel _ _
  simp only [Option.bind_eq_bind, same]
  rw [readSum, Option.bind_some, readBody, Option.bind_some]
  by_cases right : checkSum (number ++ middle) = expectedCheckSum
  · rw [if_pos right, if_pos right, readNameLen, Option.bind_some]
    by_cases named : 2 ≤ nameLen ∧ nameLen ≤ middle.length
    · have read := @range_named number middle sum _ numberLength named
      rw [if_pos named, if_pos named, read.1, Option.bind_some, decoded]
      cases WireMessage.createMessage (middle.take (nameLen.toNat - 1)) with
      | none => rfl
      | some parseFromArray =>
          simp only [read.2, Option.bind_some]
          cases parseFromArray (middle.drop nameLen.toNat) <;> rfl
    · rw [if_neg named, if_neg named]
      rfl
  · rw [if_neg right, if_neg right]
    rfl

/-! ## What a frame says -/

/-- A name and data behind a number that tells where the name ends. -/
theorem judged_named {number typeName data sum : Bytes} {mark : UInt8} (nonempty : typeName ≠ [])
    (tells : asInt32 number = typeName.length + 1)
    (right : checkSum (number ++ (typeName ++ mark :: data)) = asInt32 sum) :
    judged number (typeName ++ mark :: data) sum = decoded typeName data := by
  have positive : 0 < typeName.length := List.length_pos_iff.mpr nonempty
  have named : 2 ≤ (typeName.length : Int) + 1 ∧
      (typeName.length : Int) + 1 ≤ (typeName ++ mark :: data).length := by
    clear tells right
    rw [List.length_append, List.length_cons]
    omega
  have size : ((typeName.length : Int) + 1).toNat = typeName.length + 1 := rfl
  have ends : typeName ++ mark :: data = (typeName ++ [mark]) ++ data := by
    rw [List.append_assoc, List.singleton_append]
  rw [judged, if_pos right, tells, if_pos named, size, Nat.add_sub_cancel, List.take_left, ends,
    List.drop_left' (by rw [List.length_append, List.length_singleton])]

/-- A sealed body says what its name and its data say. -/
theorem judged_sealed {typeName data : Bytes} {mark : UInt8} (nonempty : typeName ≠ [])
    (small : typeName.length + 1 < 2 ^ 31) :
    judged (networkBytes (typeName.length + 1)) (typeName ++ mark :: data)
      (networkBytes (checkSum (body typeName mark data))) = decoded typeName data := by
  apply judged_named nonempty
  · rw [asInt32_networkBytes, int32_of_small]
    · exact Int.natCast_nonneg (typeName.length + 1)
    · exact_mod_cast small
  · rw [asInt32_networkBytes, checkSum, checkSum, int32_idem, body]

/-- A frame is refused for its checksum or for the length of its name, or it is a
sealed body. -/
theorem judged_cases {number middle sum : Bytes} (numberLength : number.length = 4)
    (sumLength : sum.length = 4) :
    (checkSum (number ++ middle) ≠ asInt32 sum ∧
      judged number middle sum = .error .kCheckSumError) ∨
    (checkSum (number ++ middle) = asInt32 sum ∧
      judged number middle sum = .error .kInvalidNameLen) ∨
    (∃ typeName mark data, typeName ≠ [] ∧
      number ++ middle ++ sum = sealed (body typeName mark data) ∧
      judged number middle sum = decoded typeName data) := by
  by_cases right : checkSum (number ++ middle) = asInt32 sum
  · right
    by_cases named : 2 ≤ asInt32 number ∧ asInt32 number ≤ middle.length
    · right
      rcases Int.eq_ofNat_of_zero_le (Int.le_trans (by decide) named.1) with ⟨size, tells⟩
      have bounds := named
      rw [tells] at bounds
      have large : 2 ≤ size := Int.ofNat_le.mp bounds.1
      have fits : size ≤ middle.length := Int.ofNat_le.mp bounds.2
      rcases exists_named large fits with ⟨typeName, mark, data, rfl, length⟩
      have told : asInt32 number = typeName.length + 1 := by
        rw [tells, ← length]
        rfl
      have nonempty : typeName ≠ [] := by
        rintro rfl
        rw [List.length_nil] at length
        exact absurd large (by rw [← length]; decide)
      refine ⟨typeName, mark, data, nonempty, ?_, judged_named nonempty told right⟩
      rw [sealed, body, ← told, networkBytes_asInt32 numberLength, right,
        networkBytes_asInt32 sumLength]
    · left
      exact ⟨right, by rw [judged, if_pos right, if_neg named]⟩
  · left
    exact ⟨right, by rw [judged, if_neg right]⟩

/-! ## What is sent -/

omit [ProtobufRuntime] [Zlib] in
theorem contents_nil {buf : Buffer} (empty : buf.readableBytes = 0) : buf.contents = [] := by
  rw [← List.length_eq_zero_iff, Buffer.length_contents, empty]

/-- `fillEmptyBuffer` puts a frame into an empty buffer that has room for the
length in front. -/
theorem fillEmptyBuffer_ok {buf : Buffer} {message : WireMessage} (empty : buf.readableBytes = 0)
    (room : buf.readerIndex = kCheapPrepend) (named : message.typeName.length + 1 < 2 ^ 31)
    (limit : message.serialize.length < sizeLimit) :
    ∃ filled, fillEmptyBuffer buf message = some filled ∧ filled.contents = frame message := by
  have nameLen : int32 (message.typeName.length + 1) = (message.typeName.length + 1 : Nat) :=
    int32_of_small (Int.natCast_nonneg _) (by exact_mod_cast named)
  have whole : (message.typeName ++ [0]).take (message.typeName.length + 1) =
      message.typeName ++ [0] :=
    List.take_of_length_le (by rw [List.length_append, List.length_singleton])
  -- the first index stays where it is, because there is nothing in front to give up
  have stays {first second : Buffer} (at_front : first.readerIndex = kCheapPrepend)
      (index : second.readerIndex = first.readerIndex ∨
        kCheapPrepend < first.readerIndex ∧ second.readerIndex = kCheapPrepend) :
      second.readerIndex = kCheapPrepend := by
    omega
  rcases buf.append_ok (networkBytes (message.typeName.length + 1 : Nat)) with
    ⟨first, firstDone, firstContents, firstIndex⟩
  rcases first.append_ok (message.typeName ++ [0]) with
    ⟨second, secondDone, secondContents, secondIndex⟩
  rcases second.ensureWritableBytes_ok message.serialize.length with
    ⟨third, thirdDone, thirdContents, thirdRoom, thirdIndex⟩
  rcases Buffer.write_ok thirdRoom with ⟨fourth, fourthDone, fourthContents, fourthIndex⟩
  rcases fourth.append_ok (networkBytes (checkSum fourth.contents)) with
    ⟨fifth, fifthDone, fifthContents, fifthIndex⟩
  have held : fourth.contents = body message.typeName 0 message.serialize := by
    rw [fourthContents, thirdContents, secondContents, firstContents, contents_nil empty, body,
      List.nil_append, List.append_assoc, List.append_assoc, List.singleton_append, Nat.cast_succ]
  have held' : fifth.contents = sealed (body message.typeName 0 message.serialize) := by
    rw [fifthContents, held, sealed]
  have measured : fifth.readableBytes =
      message.typeName.length + message.serialize.length + 9 := by
    rw [← Buffer.length_contents, held', length_sealed_body]
  have index := stays (stays (fourthIndex.trans (stays (stays (stays room firstIndex) secondIndex)
    thirdIndex)) fifthIndex) (Or.inl rfl)
  have front : (networkBytes (int32 fifth.readableBytes)).length ≤ fifth.prependableBytes := by
    rw [length_networkBytes, Buffer.prependableBytes, index]
    decide
  rcases Buffer.prepend_ok front with ⟨filled, filledDone, filledContents, _⟩
  refine ⟨filled, ?_, ?_⟩
  · have total : (fifth.readableBytes : Int) = kHeaderLen + (message.typeName.length + 1 : Nat) +
        message.serialize.length + kHeaderLen := by
      rw [measured, kHeaderLen]
      omega
    unfold fillEmptyBuffer
    simp only [nameLen, Int.toNat_natCast, whole, Buffer.appendInt32, Option.bind_eq_bind]
    rw [guard, if_pos empty, Option.pure_def, Option.bind_some, firstDone, Option.bind_some,
      secondDone, Option.bind_some, guard, if_pos limit, Option.pure_def, Option.bind_some,
      thirdDone, Option.bind_some, ← Option.bind_assoc, fourthDone, Option.bind_some, fifthDone,
      Option.bind_some, guard, if_pos total, Option.pure_def, Option.bind_some, filledDone]
  · rw [filledContents, networkBytes_int32, held', frame, framed, length_sealed_body, measured]

/-- A message is sent as its frame. -/
theorem send_eq {message : WireMessage} (named : message.typeName.length + 1 < 2 ^ 31)
    (limit : message.serialize.length < sizeLimit) : send message = some (frame message) := by
  have empty : (Buffer.new 1024).readableBytes = 0 := Nat.sub_self _
  rcases fillEmptyBuffer_ok empty rfl named limit with ⟨filled, done, contents⟩
  rw [send, done, Option.map_some, contents]

end ProtobufCodec

end ProtobufMq
