import ProtobufMq.Common.Codec
import ProtobufMq.Foundation.Stream
import Mathlib.Data.List.TakeWhile

namespace ProtobufMq

open Foundation

/-!
# `ProtobufCodec::onMessage` on the bytes of a connection

The bytes of a connection arrive in pieces, and every piece is appended to the
buffer before `onMessage` looks at it.  What the front of the buffer shows does
not depend on what comes later, so the codec is a scanner, and its loop takes
the frames that are complete.  From this follows what a receiver makes of a
stream, however the stream is cut.
-/

namespace ProtobufCodec

variable [ProtobufRuntime] [Zlib]

/-! ## What the front shows -/

/-- What a frame without its length says. -/
def judgement (content : Bytes) : Except ErrorCode WireMessage :=
  judged (content.take 4) ((content.drop 4).take (content.length - 8))
    (content.drop (content.length - 4))

/-- What some bytes show if their first number is the given one. -/
def lookAt (len : Int) (input : Bytes) : Look WireMessage ErrorCode :=
  if kMaxMessageLen < len ∨ len < kMinMessageLen then .broken .kInvalidLength
  else if len + kHeaderLen ≤ input.length then
    match judgement ((input.drop 4).take len.toNat) with
    | .ok message => .item message (kHeaderLen + len).toNat
    | .error errorCode => .broken errorCode
  else .short

/-- What some bytes show. -/
def look (input : Bytes) : Look WireMessage ErrorCode :=
  if kMinMessageLen + kHeaderLen ≤ input.length then lookAt (asInt32 (input.take 4)) input
  else .short

section Looking

variable {len : Int} {input : Bytes}

theorem judgement_split {number middle sum : Bytes} (numberLength : number.length = 4)
    (sumLength : sum.length = 4) :
    judgement (number ++ middle ++ sum) = judged number middle sum := by
  have total : (number ++ middle ++ sum).length = middle.length + 8 := by
    rw [List.length_append, List.length_append, numberLength, sumLength]
    omega
  have front : (number ++ middle).length = middle.length + 8 - 4 := by
    rw [List.length_append, numberLength]
    omega
  rw [judgement, total, List.drop_left' front, Nat.add_sub_cancel, List.append_assoc,
    List.take_left' numberLength, List.drop_left' numberLength, List.take_left]

omit [ProtobufRuntime] [Zlib] in
/-- Eight bytes and more have the two numbers at their ends. -/
theorem exists_ends {content : Bytes} (enough : 8 ≤ content.length) :
    ∃ number middle sum, number.length = 4 ∧ sum.length = 4 ∧
      content = number ++ middle ++ sum := by
  refine ⟨content.take 4, (content.drop 4).take (content.length - 8),
    (content.drop 4).drop (content.length - 8), ?_, ?_, ?_⟩
  · rw [List.length_take]
    omega
  · rw [List.length_drop, List.length_drop]
    omega
  · rw [List.append_assoc, List.take_append_drop, List.take_append_drop]

/-- `parse` never reads outside a frame whose length it was given. -/
theorem parse_judgement {content : Bytes} (enough : 8 ≤ content.length) :
    parse content content.length = some (judgement content) := by
  rcases exists_ends enough with ⟨number, middle, sum, numberLength, sumLength, rfl⟩
  have total : ((number ++ middle ++ sum).length : Int) = middle.length + 8 := by
    rw [List.length_append, List.length_append, numberLength, sumLength]
    omega
  rw [judgement_split numberLength sumLength, total, parse_eq numberLength sumLength]

omit [ProtobufRuntime] [Zlib] in
/-- A length that is allowed, as a natural number. -/
theorem exists_length (allowed : ¬(kMaxMessageLen < len ∨ len < kMinMessageLen)) :
    ∃ size : Nat, len = size ∧ 10 ≤ size ∧ size ≤ 64 * 1024 * 1024 := by
  unfold kMaxMessageLen kMinMessageLen kHeaderLen at allowed
  exact ⟨len.toNat, by omega, by omega, by omega⟩

theorem lookAt_append (more : Bytes) (decided : lookAt len input ≠ .short) :
    lookAt len (input ++ more) = lookAt len input := by
  unfold lookAt at decided ⊢
  by_cases outside : kMaxMessageLen < len ∨ len < kMinMessageLen
  · rw [if_pos outside, if_pos outside]
  · rw [if_neg outside] at decided
    rw [if_neg outside, if_neg outside]
    rcases exists_length outside with ⟨size, rfl, -, -⟩
    by_cases whole : (size : Int) + kHeaderLen ≤ input.length
    · have enough : size + 4 ≤ input.length := by
        unfold kHeaderLen at whole
        omega
      have longer : (size : Int) + kHeaderLen ≤ (input ++ more).length := by
        rw [List.length_append]
        omega
      have same : ((input ++ more).drop 4).take size = (input.drop 4).take size := by
        rw [List.drop_append_of_le_length (by omega), List.take_append_of_le_length]
        rw [List.length_drop]
        omega
      rw [if_pos whole, if_pos longer, Int.toNat_natCast, same]
    · rw [if_neg whole] at decided
      exact absurd rfl decided

/-- Whatever comes later leaves a decision as it is. -/
theorem look_append (more : Bytes) (decided : look input ≠ .short) :
    look (input ++ more) = look input := by
  unfold look at decided ⊢
  by_cases enough : kMinMessageLen + kHeaderLen ≤ input.length
  · have longer : kMinMessageLen + kHeaderLen ≤ (input ++ more).length := by
      rw [List.length_append]
      omega
    have front : (input ++ more).take 4 = input.take 4 := by
      apply List.take_append_of_le_length
      unfold kMinMessageLen kHeaderLen at enough
      omega
    rw [if_pos enough] at decided
    rw [if_pos enough, if_pos longer, front]
    exact lookAt_append more decided
  · rw [if_neg enough] at decided
    exact absurd rfl decided

theorem lookAt_size {message : WireMessage} {size : Nat}
    (found : lookAt len input = .item message size) : 0 < size ∧ size ≤ input.length := by
  unfold lookAt at found
  by_cases outside : kMaxMessageLen < len ∨ len < kMinMessageLen
  · rw [if_pos outside] at found
    cases found
  · rw [if_neg outside] at found
    rcases exists_length outside with ⟨length, rfl, -, -⟩
    clear outside
    by_cases whole : (length : Int) + kHeaderLen ≤ input.length
    · rw [if_pos whole] at found
      cases said : judgement ((input.drop 4).take (length : Int).toNat) with
      | ok message =>
          rw [said] at found
          cases found
          unfold kHeaderLen at whole ⊢
          omega
      | error errorCode =>
          rw [said] at found
          cases found
    · rw [if_neg whole] at found
      cases found

theorem look_size {message : WireMessage} {size : Nat} (found : look input = .item message size) :
    0 < size ∧ size ≤ input.length := by
  unfold look at found
  by_cases enough : kMinMessageLen + kHeaderLen ≤ input.length
  · rw [if_pos enough] at found
    exact lookAt_size found
  · rw [if_neg enough] at found
    cases found

/-- The codec as a scanner of the bytes of a connection. -/
def scanner : Scanner UInt8 WireMessage ErrorCode where
  look := look
  look_nil := rfl
  item_size := look_size
  item_append found more := by
    rw [look_append more (by rw [found]; nofun), found]
  broken_append found more := by
    rw [look_append more (by rw [found]; nofun), found]

end Looking

/-! ## The loop -/

/-- A turn of the loop does what the front of the buffer shows. -/
theorem onMessageLoop_succ (turns : Nat) (buf : Buffer) :
    onMessageLoop (turns + 1) buf =
      match look buf.contents with
      | .short => some ([], buf)
      | .broken errorCode => some ([.error errorCode], buf)
      | .item message size => (buf.retrieve size).bind fun next =>
          (onMessageLoop turns next).bind fun later =>
            some (.message message :: later.1, later.2) := by
  rw [onMessageLoop, look, Buffer.length_contents]
  by_cases enough : kMinMessageLen + kHeaderLen ≤ buf.readableBytes
  · have four : 4 ≤ buf.readableBytes := by
      unfold kMinMessageLen kHeaderLen at enough
      omega
    rw [if_pos enough, if_pos enough, Buffer.peekInt32, if_pos four]
    generalize asInt32 (buf.contents.take 4) = len
    rw [lookAt, Buffer.length_contents, Option.bind_eq_bind, Option.bind_some]
    by_cases outside : kMaxMessageLen < len ∨ len < kMinMessageLen
    · rw [if_pos outside, if_pos outside]
      rfl
    · rw [if_neg outside, if_neg outside]
      by_cases whole : len + kHeaderLen ≤ buf.readableBytes
      · rw [if_pos whole, if_pos whole]
        have parsed : parse ((buf.contents.drop kHeaderLen.toNat).take len.toNat) len =
            some (judgement ((buf.contents.drop 4).take len.toNat)) := by
          rcases exists_length outside with ⟨size, rfl, large, -⟩
          clear outside
          have length : ((buf.contents.drop 4).take size).length = size := by
            rw [List.length_take, List.length_drop, Buffer.length_contents]
            unfold kHeaderLen at whole
            omega
          have judged := @parse_judgement _ _ ((buf.contents.drop 4).take size)
            (by rw [length]; exact Nat.le_trans (by decide) large)
          rw [length] at judged
          exact judged
        rw [parsed, Option.bind_eq_bind, Option.bind_some]
        cases judgement ((buf.contents.drop 4).take len.toNat) <;> rfl
      · rw [if_neg whole, if_neg whole]
        rfl
  · rw [if_neg enough, if_neg enough]
    rfl

/-- The call backs for what came of some bytes. -/
def callbacks : Drained UInt8 WireMessage ErrorCode → List Callback :=
  Drained.calls .message .error

theorem onMessageLoop_eq {turns : Nat} {buf : Buffer} (enough : buf.readableBytes ≤ turns) :
    ∃ final, onMessageLoop turns buf = some (callbacks (scanner.drain buf.contents), final) ∧
      final.contents = (scanner.drain buf.contents).rest := by
  induction turns generalizing buf with
  | zero =>
      have nothing := contents_nil (Nat.le_zero.mp enough)
      rw [nothing, Scanner.drain_short scanner.look_nil]
      exact ⟨buf, rfl, nothing⟩
  | succ turns inductionHypothesis =>
      rw [onMessageLoop_succ]
      cases seen : scanner.look buf.contents with
      | short =>
          rw [Scanner.drain_short seen]
          change look buf.contents = _ at seen
          rw [seen]
          exact ⟨buf, rfl, rfl⟩
      | broken errorCode =>
          rw [Scanner.drain_broken seen]
          change look buf.contents = _ at seen
          rw [seen]
          exact ⟨buf, rfl, rfl⟩
      | item message size =>
          have bounds := scanner.item_size seen
          have shorter := Scanner.drop_shorter seen
          rw [Buffer.length_contents] at bounds
          rcases Buffer.retrieve_ok bounds.2 with ⟨next, retrieved, left⟩
          rw [← left, Buffer.length_contents, Buffer.length_contents] at shorter
          rcases inductionHypothesis (Nat.le_of_lt_succ (Nat.lt_of_lt_of_le shorter enough)) with
            ⟨final, done, rest⟩
          rw [Scanner.drain_item seen, ← left]
          change look buf.contents = _ at seen
          rw [seen]
          simp only [retrieved, Option.bind_some, done]
          exact ⟨final, rfl, rest⟩

/-- `onMessage` takes the frames from the front of the buffer.  It fails no
assertion and reads nothing outside a frame. -/
theorem onMessage_eq (buf : Buffer) :
    ∃ final, onMessage buf = some (callbacks (scanner.drain buf.contents), final) ∧
      final.contents = (scanner.drain buf.contents).rest :=
  onMessageLoop_eq (Nat.le_refl _)

/-! ## Arrivals -/

/-- A piece of the stream arrives: it is appended, and `onMessage` is called. -/
def arrive (buf : Buffer) (piece : Bytes) : Option (List Callback × Buffer) :=
  (buf.append piece).bind onMessage

/-- The call backs of each of the arrivals, and the buffer after the last. -/
def arriveAll : Buffer → List Bytes → Option (List (List Callback) × Buffer)
  | buf, [] => some ([], buf)
  | buf, piece :: pieces => do
      let (now, buf) ← arrive buf piece
      let (later, buf) ← arriveAll buf pieces
      return (now :: later, buf)

theorem arrive_eq (buf : Buffer) (piece : Bytes) :
    ∃ final, arrive buf piece = some (callbacks (scanner.receive buf.contents piece), final) ∧
      final.contents = (scanner.receive buf.contents piece).rest := by
  rcases buf.append_ok piece with ⟨longer, appended, contents, _⟩
  rcases onMessage_eq longer with ⟨final, done, rest⟩
  rw [contents] at done rest
  exact ⟨final, by rw [arrive, appended, Option.bind_some, done, Scanner.receive], rest⟩

/-- The buffer holds what the scanner keeps, arrival after arrival. -/
theorem arriveAll_eq (buf : Buffer) (pieces : List Bytes) :
    ∃ final,
      arriveAll buf pieces = some ((scanner.receiveAll buf.contents pieces).1.map callbacks, final) ∧
      final.contents = (scanner.receiveAll buf.contents pieces).2 := by
  induction pieces generalizing buf with
  | nil => exact ⟨buf, rfl, rfl⟩
  | cons piece pieces inductionHypothesis =>
      rcases arrive_eq buf piece with ⟨next, now, kept⟩
      rcases inductionHypothesis next with ⟨final, later, rest⟩
      rw [kept] at later rest
      refine ⟨final, ?_, rest⟩
      rw [arriveAll, now, Option.bind_eq_bind, Option.bind_some]
      simp only [later]
      rfl

/-- The call backs of all arrivals, from what came of the whole stream. -/
theorem arriveAll_drain {buf : Buffer} (empty : buf.contents = []) (pieces : List Bytes) :
    ∃ times calls final, 0 < times ∧ arriveAll buf pieces = some (calls, final) ∧
      calls.flatten = (scanner.drain pieces.flatten).items.map Callback.message ++
        (List.replicate times
          ((scanner.drain pieces.flatten).fault.map Callback.error).toList).flatten ∧
      final.contents = (scanner.drain pieces.flatten).rest := by
  have nothing := Scanner.drain_short (scanner.look_nil)
  have fine : (scanner.drain []).fault = none := by rw [nothing]
  rcases arriveAll_eq buf pieces with ⟨final, done, kept⟩
  rcases Scanner.receiveAll_calls Callback.message Callback.error fine pieces with
    ⟨times, positive, same⟩
  have left := (@Scanner.receiveAll_eq _ _ _ scanner [] pieces).2
  rw [nothing, List.nil_append] at same left
  rw [List.map_nil, List.nil_append] at same
  rw [empty] at done kept
  exact ⟨times, _, final, positive, done, same, kept.trans left⟩

/-- An arrival is met with an error if the stream up to there has one. -/
theorem arriveAll_error {buf final : Buffer} (empty : buf.contents = []) {pieces : List Bytes}
    {calls : List (List Callback)} (done : arriveAll buf pieces = some (calls, final))
    {index : Nat} {call : List Callback} (called : calls[index]? = some call)
    (errorCode : ErrorCode) :
    Callback.error errorCode ∈ call ↔
      (scanner.drain (pieces.take (index + 1)).flatten).fault = some errorCode := by
  rcases arriveAll_eq buf pieces with ⟨other, same, _⟩
  cases done.symm.trans same
  rw [List.getElem?_map] at called
  rcases Option.map_eq_some_iff.mp called with ⟨drained, received, rfl⟩
  have nothing := Scanner.drain_short (scanner.look_nil)
  have kept : buf.contents = (scanner.drain []).rest := by rw [empty, nothing]
  rw [kept] at received
  have fault := Scanner.receiveAll_fault_at received
  rw [List.nil_append] at fault
  rw [← fault, callbacks, Drained.calls, List.mem_append, List.mem_map, Option.mem_toList,
    Option.map_eq_some_iff]
  constructor
  · rintro (⟨message, _, impossible⟩ | ⟨code, failed, reported⟩)
    · cases impossible
    · cases reported
      exact failed
  · intro failed
    exact Or.inr ⟨errorCode, failed, rfl⟩

/-- How a stream was cut matters only for how often the error is reported that
ends it: the messages of the frames before are delivered in order, and what is
left in the buffer is the same. -/
theorem arriveAll_pieces {buf : Buffer} (empty : buf.contents = []) (pieces : List Bytes) :
    ∃ (messages : List WireMessage) (errors : List ErrorCode) (times : Nat) (whole : Buffer)
      (calls : List (List Callback)) (final : Buffer),
      arrive buf pieces.flatten =
        some (messages.map Callback.message ++ errors.map Callback.error, whole) ∧
      errors.length ≤ 1 ∧ 0 < times ∧
      arriveAll buf pieces = some (calls, final) ∧
      calls.flatten = messages.map Callback.message ++
        (List.replicate times (errors.map Callback.error)).flatten ∧
      final.contents = whole.contents := by
  rcases arrive_eq buf pieces.flatten with ⟨whole, together, kept⟩
  rcases arriveAll_drain empty pieces with ⟨times, calls, final, positive, apart, same, rest⟩
  rw [empty, Scanner.receive, List.nil_append] at together kept
  refine ⟨(scanner.drain pieces.flatten).items, (scanner.drain pieces.flatten).fault.toList, times,
    whole, calls, final, ?_, ?_, positive, apart, ?_, rest.trans kept.symm⟩
  · rw [together]
    cases failed : (scanner.drain pieces.flatten).fault <;>
      simp [callbacks, Drained.calls, failed]
  · cases (scanner.drain pieces.flatten).fault <;> simp
  · rw [same]
    cases (scanner.drain pieces.flatten).fault <;> rfl

omit [ProtobufRuntime] [Zlib] in
/-- Two bytes and then twelve make a length that is not allowed. -/
theorem zeros_in_pieces :
    letI := asciiRuntime
    letI := adlerZlib
    ∃ (messages : List WireMessage) (errors : List ErrorCode) (times : Nat) (whole : Buffer)
      (calls : List (List Callback)) (final : Buffer),
      arrive (.new 1024) [[0, 0], List.replicate 12 0].flatten =
        some (messages.map Callback.message ++ errors.map Callback.error, whole) ∧
      errors.length ≤ 1 ∧ 0 < times ∧
      arriveAll (.new 1024) [[0, 0], List.replicate 12 0] = some (calls, final) ∧
      calls.flatten = messages.map Callback.message ++
        (List.replicate times (errors.map Callback.error)).flatten ∧
      final.contents = whole.contents :=
  @arriveAll_pieces asciiRuntime adlerZlib (.new 1024) (Buffer.contents_new 1024) _

/-! ## Frames at the front -/

section Frames

variable {content more : Bytes} {message : WireMessage}

omit [ProtobufRuntime] [Zlib] in
theorem take_framed (content more : Bytes) :
    (framed content ++ more).take 4 = networkBytes content.length := by
  rw [framed, List.append_assoc, List.take_left' (length_networkBytes _)]

omit [ProtobufRuntime] [Zlib] in
theorem drop_framed (content more : Bytes) :
    ((framed content ++ more).drop 4).take content.length = content := by
  rw [framed, List.append_assoc, List.drop_left' (length_networkBytes _), List.take_left]

omit [ProtobufRuntime] [Zlib] in
theorem framed_front {front back : Bytes} (begun : front ++ back = framed content)
    (four : 4 ≤ front.length) : front.take 4 = networkBytes content.length := by
  have taken := take_framed content []
  rwa [List.append_nil, ← begun, List.take_append_of_le_length four] at taken

/-- A frame that has not arrived completely is waited for. -/
theorem look_begun (large : 10 ≤ content.length) (small : content.length ≤ 64 * 1024 * 1024)
    {front back : Bytes} (begun : front ++ back = framed content) (missing : back ≠ []) :
    look front = .short := by
  have shorter : front.length < 4 + content.length := by
    have size := List.length_pos_iff.mpr missing
    have whole := congrArg List.length begun
    rw [List.length_append, length_framed] at whole
    omega
  unfold look
  by_cases enough : kMinMessageLen + kHeaderLen ≤ front.length
  · have read : asInt32 (front.take 4) = content.length := by
      have four : 4 ≤ front.length := by
        unfold kMinMessageLen kHeaderLen at enough
        omega
      rw [framed_front begun four, asInt32_networkBytes]
      exact int32_of_small (Int.natCast_nonneg _)
        (Int.lt_of_le_of_lt (Int.ofNat_le.mpr small) (by decide))
    have allowed : ¬(kMaxMessageLen < (content.length : Int) ∨
        (content.length : Int) < kMinMessageLen) := by
      rw [kMaxMessageLen, kMinMessageLen, kHeaderLen]
      omega
    have part : ¬(content.length : Int) + kHeaderLen ≤ front.length := by
      rw [kHeaderLen]
      omega
    rw [if_pos enough, read, lookAt, if_neg allowed, if_neg part]
  · rw [if_neg enough]

/-- A frame of an allowed length is seen as what it says. -/
theorem look_framed (large : 10 ≤ content.length) (small : content.length ≤ 64 * 1024 * 1024)
    (more : Bytes) :
    look (framed content ++ more) =
      match judgement content with
      | .ok message => .item message (framed content).length
      | .error errorCode => .broken errorCode := by
  have enough : kMinMessageLen + kHeaderLen ≤ (framed content ++ more).length := by
    rw [List.length_append, length_framed, kMinMessageLen, kHeaderLen]
    omega
  have read : asInt32 ((framed content ++ more).take 4) = content.length := by
    rw [take_framed, asInt32_networkBytes]
    exact int32_of_small (Int.natCast_nonneg _)
      (Int.lt_of_le_of_lt (Int.ofNat_le.mpr small) (by decide))
  have allowed : ¬(kMaxMessageLen < (content.length : Int) ∨
      (content.length : Int) < kMinMessageLen) := by
    rw [kMaxMessageLen, kMinMessageLen, kHeaderLen]
    omega
  have whole : (content.length : Int) + kHeaderLen ≤ (framed content ++ more).length := by
    rw [List.length_append, length_framed, kHeaderLen]
    omega
  have size : (kHeaderLen + (content.length : Int)).toNat = (framed content).length := by
    rw [length_framed, kHeaderLen]
    omega
  rw [look, if_pos enough, read, lookAt, if_neg allowed, if_pos whole, Int.toNat_natCast,
    drop_framed, size]

/-- A frame that is too long is seen to be so once its first bytes are there. -/
theorem look_long (long : 64 * 1024 * 1024 < content.length) (limit : content.length < 2 ^ 32)
    (more : Bytes) : look (framed content ++ more) = .broken .kInvalidLength := by
  have enough : kMinMessageLen + kHeaderLen ≤ (framed content ++ more).length := by
    rw [List.length_append, length_framed, kMinMessageLen, kHeaderLen]
    omega
  have outside : kMaxMessageLen < int32 content.length ∨ int32 content.length < kMinMessageLen := by
    rw [kMaxMessageLen, kMinMessageLen, kHeaderLen, int32, Int.bmod_def]
    omega
  rw [look, if_pos enough, take_framed, asInt32_networkBytes, lookAt, if_pos outside]

/-- Input that is neither too short nor of a wrong length begins with a frame. -/
theorem look_cases (input : Bytes) :
    look input = .short ∨ look input = .broken .kInvalidLength ∨
      ∃ content more, input = framed content ++ more ∧ 10 ≤ content.length ∧
        content.length ≤ 64 * 1024 * 1024 := by
  unfold look
  by_cases enough : kMinMessageLen + kHeaderLen ≤ input.length
  · have four : (input.take 4).length = 4 := by
      rw [List.length_take]
      unfold kMinMessageLen kHeaderLen at enough
      omega
    have written := networkBytes_asInt32 four
    rw [if_pos enough]
    generalize asInt32 (input.take 4) = len at written ⊢
    unfold lookAt
    by_cases outside : kMaxMessageLen < len ∨ len < kMinMessageLen
    · right; left
      rw [if_pos outside]
    · rw [if_neg outside]
      rcases exists_length outside with ⟨size, rfl, large, small⟩
      by_cases whole : (size : Int) + kHeaderLen ≤ input.length
      · right; right
        have length : ((input.drop 4).take size).length = size := by
          clear outside
          rw [List.length_take, List.length_drop]
          unfold kHeaderLen at whole
          omega
        refine ⟨(input.drop 4).take size, (input.drop 4).drop size, ?_, ?_, ?_⟩
        · rw [framed, length, written, List.append_assoc, List.take_append_drop,
            List.take_append_drop]
        · rw [length]
          exact large
        · rw [length]
          exact small
      · left
        rw [if_neg whole]
  · left
    rw [if_neg enough]

theorem judgement_sealed {typeName data : Bytes} {mark : UInt8} (nonempty : typeName ≠ [])
    (small : typeName.length + 1 < 2 ^ 31) :
    judgement (sealed (body typeName mark data)) = decoded typeName data := by
  have parts : sealed (body typeName mark data) =
      networkBytes (typeName.length + 1) ++ (typeName ++ mark :: data) ++
        networkBytes (checkSum (body typeName mark data)) := rfl
  rw [parts, judgement_split (length_networkBytes _) (length_networkBytes _)]
  exact judged_sealed nonempty small

theorem judgement_cases (enough : 8 ≤ content.length) :
    judgement content = .error .kCheckSumError ∨ judgement content = .error .kInvalidNameLen ∨
      ∃ typeName mark data, typeName ≠ [] ∧ content = sealed (body typeName mark data) ∧
        judgement content = decoded typeName data := by
  rcases exists_ends enough with ⟨number, middle, sum, numberLength, sumLength, rfl⟩
  rw [judgement_split numberLength sumLength]
  rcases @judged_cases _ _ number middle sum numberLength sumLength with
    ⟨_, said⟩ | ⟨_, said⟩ | ⟨typeName, mark, data, nonempty, same, said⟩
  · exact Or.inl said
  · exact Or.inr (Or.inl said)
  · exact Or.inr (Or.inr ⟨typeName, mark, data, nonempty, same, said⟩)

/-- The frames that are accepted are these, and no others. -/
theorem look_item_iff {input : Bytes} {size : Nat} :
    look input = .item message size ↔
      ∃ typeName mark data more, typeName ≠ [] ∧
        input = framed (sealed (body typeName mark data)) ++ more ∧
        size = (framed (sealed (body typeName mark data))).length ∧
        (sealed (body typeName mark data)).length ≤ 64 * 1024 * 1024 ∧
        decoded typeName data = .ok message := by
  constructor
  · intro found
    rcases look_cases input with short | broken | ⟨content, more, rfl, large, small⟩
    · rw [short] at found
      cases found
    · rw [broken] at found
      cases found
    · rw [look_framed large small] at found
      rcases judgement_cases (Nat.le_trans (by decide) large) with
        said | said | ⟨typeName, mark, data, nonempty, rfl, said⟩
      · rw [said] at found
        cases found
      · rw [said] at found
        cases found
      · rw [said] at found
        cases result : decoded typeName data with
        | ok other =>
            rw [result] at found
            cases found
            exact ⟨typeName, mark, data, more, nonempty, rfl, rfl, small, result⟩
        | error errorCode =>
            rw [result] at found
            cases found
  · rintro ⟨typeName, mark, data, more, nonempty, rfl, rfl, small, result⟩
    have positive : 0 < typeName.length := List.length_pos_iff.mpr nonempty
    have large : 10 ≤ (sealed (body typeName mark data)).length := by
      rw [length_sealed_body]
      omega
    have named : typeName.length + 1 < 2 ^ 31 := by
      rw [length_sealed_body] at small
      omega
    rw [look_framed large small, judgement_sealed nonempty named, result]

/-- What a frame that is accepted is made of.  The byte that ends the name may be
any. -/
structure Part where
  typeName : Bytes
  mark : UInt8
  data : Bytes
  named : typeName ≠ []
  allowed : (sealed (body typeName mark data)).length ≤ 64 * 1024 * 1024

/-- The frame of a part. -/
def Part.frame (part : Part) : Bytes :=
  framed (sealed (body part.typeName part.mark part.data))

/-- What a part says. -/
def Part.decoded (part : Part) : Except ErrorCode WireMessage :=
  ProtobufCodec.decoded part.typeName part.data

theorem look_part_iff {input : Bytes} {size : Nat} :
    look input = .item message size ↔
      ∃ (part : Part) (more : Bytes), input = part.frame ++ more ∧ size = part.frame.length ∧
        part.decoded = .ok message := by
  rw [look_item_iff]
  constructor
  · rintro ⟨typeName, mark, data, more, named, begins, length, allowed, holds⟩
    exact ⟨⟨typeName, mark, data, named, allowed⟩, more, begins, length, holds⟩
  · rintro ⟨part, more, begins, length, holds⟩
    exact ⟨part.typeName, part.mark, part.data, more, part.named, begins, length, part.allowed,
      holds⟩

/-- The frames at the front say the messages, and are followed by what is left. -/
theorem drain_parts (input : Bytes) :
    ∃ parts : List Part, input = parts.flatMap Part.frame ++ (scanner.drain input).rest ∧
      List.Forall₂ (fun part message => part.decoded = .ok message) parts
        (scanner.drain input).items := by
  induction input using scanner.drain_induction with
  | short input seen =>
      rw [Scanner.drain_short seen]
      exact ⟨[], rfl, .nil⟩
  | broken input errorCode seen =>
      rw [Scanner.drain_broken seen]
      exact ⟨[], rfl, .nil⟩
  | step input message size seen inductionHypothesis =>
      rcases look_part_iff.mp seen with ⟨part, more, rfl, rfl, holds⟩
      rw [List.drop_left] at inductionHypothesis
      rcases inductionHypothesis with ⟨parts, split, said⟩
      rw [Scanner.drain_item seen, List.drop_left]
      refine ⟨part :: parts, ?_, .cons holds said⟩
      rw [List.flatMap_cons, List.append_assoc, ← split]

/-- Every message that is delivered is what some frame says. -/
theorem exists_part {input : Bytes} (member : message ∈ (scanner.drain input).items) :
    ∃ part : Part, part.decoded = .ok message := by
  rcases drain_parts input with ⟨parts, _, said⟩
  rcases List.mem_iff_getElem.mp member with ⟨index, inside, rfl⟩
  exact ⟨_, said.get (said.length_eq ▸ inside) inside⟩

/-- `onMessage` delivers what the frames at the front of the buffer say, and stops
where no frame that says a message begins. -/
theorem onMessage_parts (buf : Buffer) :
    ∃ (parts : List Part) (messages : List WireMessage) (errors : List ErrorCode) (final : Buffer),
      onMessage buf = some (messages.map Callback.message ++ errors.map Callback.error, final) ∧
      errors.length ≤ 1 ∧
      buf.contents = parts.flatMap Part.frame ++ final.contents ∧
      List.Forall₂ (fun part message => part.decoded = .ok message) parts messages ∧
      ∀ (part : Part) (message : WireMessage) (more : Bytes), part.decoded = .ok message →
        final.contents ≠ part.frame ++ more := by
  rcases onMessage_eq buf with ⟨final, done, rest⟩
  rcases drain_parts buf.contents with ⟨parts, split, said⟩
  refine ⟨parts, _, (scanner.drain buf.contents).fault.toList, final, ?_, ?_, ?_, said, ?_⟩
  · rw [done]
    cases failed : (scanner.drain buf.contents).fault <;>
      simp [callbacks, Drained.calls, failed]
  · cases (scanner.drain buf.contents).fault <;> simp
  · rw [rest]
    exact split
  · intro part message more holds begins
    have seen : scanner.look (scanner.drain buf.contents).rest = _ :=
      look_part_iff.mpr ⟨part, more, rest.symm.trans begins, rfl, holds⟩
    cases failed : (scanner.drain buf.contents).fault with
    | none =>
        rw [Scanner.look_rest failed] at seen
        cases seen
    | some errorCode =>
        rw [Scanner.look_fault failed] at seen
        cases seen

end Frames

/-! ## Messages on their way -/

section Conveyed

variable {message : WireMessage}

/-- A message that `send` puts on the wire: it can be held by its class, and its
encoding is short enough. -/
def Sendable (message : WireMessage) : Prop :=
  message.Representable ∧ message.serialize.length < sizeLimit

/-- The error that the frame of a message meets with, if it does. -/
def refusal (message : WireMessage) : Option ErrorCode :=
  if 64 * 1024 * 1024 < (sealed (body message.typeName 0 message.serialize)).length then
    some .kInvalidLength
  else if message.isUtf8 then none else some .kParseError

theorem send_sendable (sendable : Sendable message) : send message = some (frame message) := by
  have bounds := WireMessage.typeName_bounds sendable.1
  exact send_eq (by omega) sendable.2

/-- The frame of a message is seen as that message, or as its error. -/
theorem look_frame (reads : RuntimeReads) (sendable : Sendable message) (more : Bytes) :
    look (frame message ++ more) =
      match refusal message with
      | none => .item message (frame message).length
      | some errorCode => .broken errorCode := by
  have bounds := WireMessage.typeName_bounds sendable.1
  have limit := sendable.2
  rw [sizeLimit] at limit
  have length := length_sealed_body message.typeName 0 message.serialize
  rw [refusal]
  by_cases long : 64 * 1024 * 1024 < (sealed (body message.typeName 0 message.serialize)).length
  · rw [if_pos long, frame, look_long long (by rw [length]; omega)]
  · have nonempty : message.typeName ≠ [] := List.ne_nil_of_length_pos bounds.1
    rcases WireMessage.parse_generated reads sendable.1 sendable.2 with ⟨entry, member, name, parsed⟩
    rw [if_neg long, frame, look_framed (by rw [length]; omega) (Nat.le_of_not_lt long),
      judgement_sealed nonempty (by omega), decoded, name,
      WireMessage.createMessage_generated member]
    simp only [parsed]
    cases message.isUtf8 <;> rfl

/-- What comes of the frames of some messages: all the messages before the first
that meets with an error, and this error. -/
theorem drain_frames (reads : RuntimeReads) {messages : List WireMessage}
    (sendable : ∀ message ∈ messages, Sendable message) :
    (scanner.drain (messages.flatMap frame)).items =
        messages.takeWhile (fun message => (refusal message).isNone) ∧
      (scanner.drain (messages.flatMap frame)).fault = messages.findSome? refusal := by
  induction messages with
  | nil =>
      rw [List.flatMap_nil, Scanner.drain_short scanner.look_nil]
      exact ⟨rfl, rfl⟩
  | cons message messages inductionHypothesis =>
      rw [List.forall_mem_cons] at sendable
      have seen : scanner.look (frame message ++ messages.flatMap frame) = _ :=
        look_frame reads sendable.1 _
      rw [List.flatMap_cons]
      cases refused : refusal message with
      | none =>
          rw [refused] at seen
          have onward := inductionHypothesis sendable.2
          rw [Scanner.drain_item seen, List.drop_left]
          simp only [List.takeWhile_cons, refused, Option.isNone_none, if_true,
            List.findSome?_cons, onward.1, onward.2, and_self]
      | some errorCode =>
          rw [refused] at seen
          rw [Scanner.drain_broken seen]
          simp only [List.takeWhile_cons, refused, Option.isNone_some, Bool.false_eq_true, if_false,
            List.findSome?_cons, and_self]

/-- A message that meets with no error is found at the front of its frame. -/
theorem finds_frame (reads : RuntimeReads) (sendable : Sendable message)
    (accepted : refusal message = none) : scanner.Finds frame message := by
  intro more
  change look _ = _
  rw [look_frame reads sendable, accepted]

theorem mapM_send {messages : List WireMessage}
    (sendable : ∀ message ∈ messages, Sendable message) :
    messages.mapM send = some (messages.map frame) := by
  induction messages with
  | nil => rfl
  | cons message messages inductionHypothesis =>
      rw [List.forall_mem_cons] at sendable
      rw [List.mapM_cons, send_sendable sendable.1, inductionHypothesis sendable.2]
      rfl

/-- What comes of frames that arrive in pieces. -/
theorem arriveAll_frames (reads : RuntimeReads) {messages : List WireMessage}
    (sendable : ∀ message ∈ messages, Sendable message) {buf : Buffer}
    (empty : buf.contents = []) {pieces : List Bytes}
    (arrived : pieces.flatten = messages.flatMap frame) :
    ∃ times calls final, 0 < times ∧ arriveAll buf pieces = some (calls, final) ∧
      calls.flatten =
        (messages.takeWhile fun message => (refusal message).isNone).map Callback.message ++
          (List.replicate times
            ((messages.findSome? refusal).map Callback.error).toList).flatten := by
  have drained := drain_frames reads sendable
  rw [← arrived] at drained
  rcases arriveAll_drain empty pieces with ⟨times, calls, final, positive, done, same, _⟩
  rw [drained.1, drained.2] at same
  exact ⟨times, calls, final, positive, done, same⟩

/-- Messages that were sent over a connection, however their bytes were cut on
the way, are delivered in order up to the first that is too long or has a text
that is not UTF-8.  From there on the receiver reports that error, and delivers
nothing. -/
theorem arriveAll_sent (reads : RuntimeReads) {messages : List WireMessage}
    (sendable : ∀ message ∈ messages, Sendable message) {buf : Buffer}
    (empty : buf.contents = []) :
    ∃ frames, messages.mapM send = some frames ∧
      ∀ pieces : List Bytes, pieces.flatten = frames.flatten →
        ∃ times calls final, 0 < times ∧ arriveAll buf pieces = some (calls, final) ∧
          calls.flatten =
            (messages.takeWhile fun message => (refusal message).isNone).map Callback.message ++
              (List.replicate times
                ((messages.findSome? refusal).map Callback.error).toList).flatten := by
  refine ⟨_, mapM_send sendable, fun pieces arrived => ?_⟩
  rw [← List.flatMap_def] at arrived
  exact arriveAll_frames reads sendable empty arrived

/-- A client opens a channel. -/
def opening : WireMessage :=
  .openChannelRequst ⟨ascii "1", ascii "c"⟩

omit [ProtobufRuntime] [Zlib] in
theorem opening_sendable : @Sendable asciiRuntime opening :=
  ⟨trivial, by decide +kernel⟩

omit [ProtobufRuntime] [Zlib] in
theorem opening_accepted : @refusal asciiRuntime adlerZlib opening = none := by
  decide +kernel

omit [ProtobufRuntime] [Zlib] in
theorem opening_arrives :
    letI := asciiRuntime
    letI := adlerZlib
    ∃ frames, [opening].mapM send = some frames ∧
      ∀ pieces : List Bytes, pieces.flatten = frames.flatten →
        ∃ times calls final, 0 < times ∧ arriveAll (.new 1024) pieces = some (calls, final) ∧
          calls.flatten =
            ([opening].takeWhile fun message => (refusal message).isNone).map Callback.message ++
              (List.replicate times
                (([opening].findSome? refusal).map Callback.error).toList).flatten :=
  @arriveAll_sent asciiRuntime adlerZlib asciiRuntime_reads [opening]
    (List.forall_mem_singleton.mpr opening_sendable) (.new 1024) (Buffer.contents_new 1024)

/-- While a stream of such messages is on its way, those whose bytes are all there
have been delivered, and the others have not. -/
theorem arriveAll_begun (reads : RuntimeReads) {messages : List WireMessage}
    (sendable : ∀ message ∈ messages, Sendable message)
    (accepted : ∀ message ∈ messages, refusal message = none) {buf : Buffer}
    (empty : buf.contents = []) {pieces : List Bytes} {missing : Bytes}
    (begun : pieces.flatten ++ missing = messages.flatMap frame) :
    ∃ delivered later calls final, messages = delivered ++ later ∧
      arriveAll buf pieces = some (calls, final) ∧
      calls.flatten = delivered.map Callback.message ∧
      final.contents ++ missing = later.flatMap frame ∧
      ∀ next ∈ later.head?, final.contents.length < (frame next).length := by
  have found : ∀ message ∈ messages, scanner.Finds frame message :=
    fun message member => finds_frame reads (sendable message member) (accepted message member)
  rcases Scanner.drain_begun found begun with ⟨later, split, whole, left⟩
  rcases arriveAll_drain empty pieces with ⟨times, calls, final, _, done, same, kept⟩
  rw [whole] at same
  refine ⟨(scanner.drain pieces.flatten).items, later, calls, final, split, done, ?_, ?_, ?_⟩
  · rw [same]
    simp
  · rw [kept, left]
  · intro next member
    rw [kept]
    have there : next ∈ messages := by
      rw [split]
      exact List.mem_append_right _ (List.mem_of_mem_head? member)
    cases later with
    | nil => cases member
    | cons first later =>
        cases member
        rw [List.flatMap_cons] at left
        exact Scanner.begun_shorter (found _ there) left (Scanner.look_rest whole)

omit [ProtobufRuntime] [Zlib] in
/-- The frame and half of it again. -/
theorem opening_begun :
    letI := asciiRuntime
    letI := adlerZlib
    ∃ delivered later calls final, [opening, opening] = delivered ++ later ∧
      arriveAll (.new 1024) [frame opening, (frame opening).take 20] = some (calls, final) ∧
      calls.flatten = delivered.map Callback.message ∧
      final.contents ++ (frame opening).drop 20 = later.flatMap frame ∧
      ∀ next ∈ later.head?, final.contents.length < (frame next).length :=
  @arriveAll_begun asciiRuntime adlerZlib asciiRuntime_reads [opening, opening]
    (by
      intro message member
      rcases List.mem_pair.mp member with rfl | rfl <;> exact opening_sendable)
    (by
      intro message member
      rcases List.mem_pair.mp member with rfl | rfl <;> exact opening_accepted)
    (.new 1024) (Buffer.contents_new 1024) _ _ (by decide +kernel)

end Conveyed

end ProtobufCodec

end ProtobufMq
