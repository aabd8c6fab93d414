import ProtobufMq.Common.Receiving

namespace ProtobufMq

open Foundation

/-!
# Frames that were damaged on the way

The checksum at the end of a frame is there to find damage.  With `adler32` as
`zlib` documents it, a frame in which one byte was replaced behind the length,
or two neighbours were exchanged, is always refused for its checksum, whatever
else the bytes of the frame may be.
-/

/-- `adler32` computes what `zlib` documents. -/
def Documented [Zlib] : Prop :=
  ∀ bytes, Zlib.adler32 bytes = Adler.checksum bytes

theorem adlerZlib_documented : @Documented adlerZlib :=
  fun _ => rfl

namespace ProtobufCodec

/-- A small damage: one byte was replaced, or two neighbours were exchanged. -/
inductive Damage : Bytes → Bytes → Prop where
  | replaced (before after : Bytes) {first second : UInt8} (differ : first ≠ second) :
      Damage (before ++ first :: after) (before ++ second :: after)
  | exchanged (before after : Bytes) {first second : UInt8} (differ : first ≠ second) :
      Damage (before ++ first :: second :: after) (before ++ second :: first :: after)

/-- A damage of what follows the length: of one of its two parts, or an exchange of the
last byte of the one for the first of the other. -/
inductive Damaged (body sum : Bytes) : Bytes → Prop where
  | body {other : Bytes} (damage : Damage body other) : Damaged body sum (other ++ sum)
  | sum {other : Bytes} (damage : Damage sum other) : Damaged body sum (body ++ other)
  | across {front rest : Bytes} {last first : UInt8} (bodyEnds : body = front ++ [last])
      (sumBegins : sum = first :: rest) (differ : last ≠ first) :
      Damaged body sum (front ++ first :: last :: rest)

namespace Damage

variable {bytes other : Bytes}

theorem length_eq (damage : Damage bytes other) : other.length = bytes.length := by
  cases damage with
  | replaced before after differ => simp only [List.length_append, List.length_cons]
  | exchanged before after differ => simp only [List.length_append, List.length_cons]

theorem ne (damage : Damage bytes other) : bytes ≠ other := by
  intro same
  cases damage with
  | replaced before after differ => exact differ (List.cons.inj (List.append_cancel_left same)).1
  | exchanged before after differ => exact differ (List.cons.inj (List.append_cancel_left same)).1

theorem checksum_ne (damage : Damage bytes other) : Adler.checksum bytes ≠ Adler.checksum other := by
  cases damage with
  | replaced before after differ => exact Adler.checksum_substitution before after differ
  | exchanged before after differ => exact Adler.checksum_transposition before after differ

/-- A damage of two parts is one of the first, one of the second, or one across the border. -/
theorem damaged {body sum : Bytes} (damage : Damage (body ++ sum) other) :
    Damaged body sum other := by
  generalize whole : body ++ sum = intact at damage
  cases damage with
  | @replaced before after first second differ =>
      rcases List.append_eq_append_iff.mp whole with ⟨between, rfl, same⟩ | ⟨between, rfl, same⟩
      · rw [same, List.append_assoc]
        exact .sum (.replaced between after differ)
      · cases between with
        | nil =>
            rw [List.append_nil]
            rw [List.nil_append] at same
            rw [← same]
            exact .sum (.replaced [] after differ)
        | cons byte between =>
            simp only [List.cons_append, List.cons.injEq] at same
            rcases same with ⟨rfl, rfl⟩
            rw [← List.cons_append, ← List.append_assoc]
            exact .body (.replaced before between differ)
  | @exchanged before after first second differ =>
      rcases List.append_eq_append_iff.mp whole with ⟨between, rfl, same⟩ | ⟨between, rfl, same⟩
      · rw [same, List.append_assoc]
        exact .sum (.exchanged between after differ)
      · cases between with
        | nil =>
            rw [List.append_nil]
            rw [List.nil_append] at same
            rw [← same]
            exact .sum (.exchanged [] after differ)
        | cons byte between =>
            simp only [List.cons_append, List.cons.injEq] at same
            rcases same with ⟨rfl, same⟩
            cases between with
            | nil => exact .across rfl same.symm differ
            | cons other between =>
                simp only [List.cons_append, List.cons.injEq] at same
                rcases same with ⟨rfl, rfl⟩
                rw [← List.cons_append, ← List.cons_append, ← List.append_assoc]
                exact .body (.exchanged before between differ)

end Damage

variable [ProtobufRuntime] [Zlib]

omit [ProtobufRuntime] [Zlib] in
/-- A number below `2^32` is known from its 32 bits. -/
theorem int32_inj {first second : Nat} (firstSmall : first < 2 ^ 32) (secondSmall : second < 2 ^ 32)
    (same : int32 first = int32 second) : first = second := by
  unfold int32 at same
  rw [Int.bmod_def, Int.bmod_def] at same
  omega

omit [ProtobufRuntime] in
/-- A damage changes the checksum, also as a number of 32 bits. -/
theorem checkSum_ne (documented : Documented) {bytes other : Bytes} (damage : Damage bytes other) :
    checkSum bytes ≠ checkSum other := by
  intro same
  rw [checkSum, checkSum, documented, documented] at same
  exact damage.checksum_ne (int32_inj (Adler.checksum_lt bytes) (Adler.checksum_lt other) same)

omit [ProtobufRuntime] in
/-- The checksum of a body is the number of the four bytes that are sent for it. -/
theorem checksum_eq (documented : Documented) {bytes sum : Bytes} (sumLength : sum.length = 4)
    (same : asInt32 sum = checkSum bytes) : Adler.checksum bytes = leNat sum.reverse := by
  have limit := leNat_lt sum.reverse
  rw [List.length_reverse, sumLength] at limit
  rw [checkSum, documented, asInt32] at same
  exact (int32_inj limit (Adler.checksum_lt bytes) same).symm

omit [ProtobufRuntime] in
/-- With another last byte, a body has another checksum than one that differs in its first
byte only. -/
theorem checkSum_across (documented : Documented) {front rest : Bytes} {last first : UInt8}
    (differ : last ≠ first) (width : rest.length = 3)
    (right : asInt32 (first :: rest) = checkSum (front ++ [last])) :
    checkSum (front ++ [first]) ≠ asInt32 (last :: rest) := by
  intro same
  have four (byte : UInt8) : (byte :: rest).length = 4 := by rw [List.length_cons, width]
  have intact := checksum_eq documented (four first) right
  have damaged := checksum_eq documented (four last) same.symm
  have low := Adler.checksum_low_ne front differ
  rcases List.length_eq_three.mp width with ⟨one, two, three, rfl⟩
  simp only [List.reverse_cons, List.reverse_nil, List.nil_append, List.cons_append, leNat]
    at intact damaged
  omega

omit [ProtobufRuntime] [Zlib] in
/-- Four bytes are known from their number. -/
theorem asInt32_inj {first second : Bytes} (firstLength : first.length = 4)
    (secondLength : second.length = 4) (same : asInt32 first = asInt32 second) : first = second := by
  rw [← networkBytes_asInt32 firstLength, same, networkBytes_asInt32 secondLength]

theorem judgement_checkSum {body sum : Bytes} (bodyLength : 4 ≤ body.length)
    (sumLength : sum.length = 4) (wrong : checkSum body ≠ asInt32 sum) :
    judgement (body ++ sum) = .error .kCheckSumError := by
  have numberLength : (body.take 4).length = 4 := by
    rw [List.length_take]
    omega
  have split : body.take 4 ++ body.drop 4 = body := List.take_append_drop 4 body
  have said := @judgement_split _ _ (body.take 4) (body.drop 4) sum numberLength sumLength
  rw [split, judged, split, if_neg wrong] at said
  exact said

/-- A frame with the right checksum is refused once it is damaged. -/
theorem look_damaged (documented : Documented) {body content : Bytes}
    (large : 6 ≤ body.length) (small : (sealed body).length ≤ 64 * 1024 * 1024)
    (whole : Damage (sealed body) content) (more : Bytes) :
    look (framed content ++ more) = .broken .kCheckSumError := by
  have sumLength := length_networkBytes (checkSum body)
  have right : asInt32 (networkBytes (checkSum body)) = checkSum body := by
    rw [asInt32_networkBytes, checkSum, int32_idem]
  have length : content.length = body.length + 4 := by rw [whole.length_eq, length_sealed]
  rw [length_sealed] at small
  rw [look_framed (by omega) (by omega)]
  unfold sealed at whole
  generalize networkBytes (checkSum body) = sum at *
  cases whole.damaged with
  | @body other damage =>
      have large : 4 ≤ other.length := Nat.le_trans (by omega) damage.length_eq.ge
      have wrong : checkSum other ≠ asInt32 sum := by
        rw [right]
        exact (checkSum_ne documented damage).symm
      rw [judgement_checkSum large sumLength wrong]
  | @sum other damage =>
      have otherLength : other.length = 4 := damage.length_eq.trans sumLength
      rw [judgement_checkSum (by omega) otherLength]
      intro same
      exact damage.ne (asInt32_inj sumLength otherLength (right.trans same))
  | @across front rest last first bodyEnds sumBegins differ =>
      rw [bodyEnds, List.length_append, List.length_singleton] at large
      rw [bodyEnds, sumBegins] at right
      rw [sumBegins, List.length_cons] at sumLength
      have wrong := checkSum_across documented differ (Nat.succ.inj sumLength) right
      have refused := @judgement_checkSum _ _ (front ++ [first]) (last :: rest)
        (by rw [List.length_append, List.length_singleton]; omega) sumLength wrong
      rw [List.append_assoc] at refused
      change judgement (front ++ first :: last :: rest) = _ at refused
      rw [refused]

/-- A damaged frame ends a stream: what was sent before it is delivered, it is
refused for its checksum by the call at which it is complete and by every later
one, and what was sent after it is not looked at. -/
theorem arriveAll_damaged (reads : RuntimeReads) (documented : Documented)
    {earlier : List WireMessage} (sendable : ∀ message ∈ earlier, Sendable message)
    (accepted : ∀ message ∈ earlier, refusal message = none)
    {message : WireMessage} (allowed : Sendable message)
    (short : refusal message ≠ some .kInvalidLength) {content : Bytes}
    (damage : Damage (sealed (body message.typeName 0 message.serialize)) content)
    {buf : Buffer} (empty : buf.contents = []) {pieces : List Bytes} {more : Bytes}
    (arrived : pieces.flatten = earlier.flatMap frame ++ (framed content ++ more)) :
    ∃ times calls final, 0 < times ∧ arriveAll buf pieces = some (calls, final) ∧
      calls.flatten = earlier.map Callback.message ++
        List.replicate times (Callback.error .kCheckSumError) ∧
      ∀ index call, calls[index]? = some call →
        (Callback.error .kCheckSumError ∈ call ↔
          (earlier.flatMap frame ++ framed content).length ≤
            (pieces.take (index + 1)).flatten.length) := by
  have bounds := WireMessage.typeName_bounds allowed.1
  have large : 6 ≤ (body message.typeName 0 message.serialize).length := by
    rw [length_body]
    omega
  have small : (sealed (body message.typeName 0 message.serialize)).length ≤ 64 * 1024 * 1024 := by
    by_contra long
    exact short (if_pos (Nat.lt_of_not_le long))
  have found : ∀ message ∈ earlier, scanner.Finds frame message :=
    fun message member => finds_frame reads (sendable message member) (accepted message member)
  have breaks : ∀ more, scanner.look (framed content ++ more) = .broken .kCheckSumError :=
    look_damaged documented large small damage
  have length := damage.length_eq
  rcases arriveAll_drain empty pieces with ⟨times, calls, final, positive, done, same, _⟩
  rw [arrived, Scanner.drain_encoded found, Scanner.drain_broken (breaks more), List.append_nil]
    at same
  refine ⟨times, calls, final, positive, done, ?_, fun index call called => ?_⟩
  · rw [same, Option.map_some, Option.toList_some, List.flatten_replicate_singleton]
  · have begun : (pieces.take (index + 1)).flatten ++ (pieces.drop (index + 1)).flatten =
        earlier.flatMap frame ++ (framed content ++ more) := by
      rw [← List.flatten_append, List.take_append_drop, arrived]
    have waits : ∀ front back, front ++ back = framed content → back ≠ [] →
        scanner.look front = .short := by
      rw [length_sealed] at length small
      exact fun front back => look_begun (by omega) (by omega)
    rw [arriveAll_error empty done called, Scanner.drain_fault_iff found breaks waits begun]
    split_ifs with complete
    · exact ⟨fun _ => complete, fun _ => rfl⟩
    · exact ⟨fun impossible => (nomatch impossible), fun arrived => absurd arrived complete⟩

omit [ProtobufRuntime] [Zlib] in
/-- In the second of two frames, the last byte of the body and the first of the checksum are
exchanged. -/
theorem opening_damaged :
    letI := asciiRuntime
    letI := adlerZlib
    let intact := sealed (body opening.typeName 0 opening.serialize)
    let border := intact.length - 5
    let content := intact.take border ++ intact[border + 1]?.getD 0 :: intact[border]?.getD 0 ::
      intact.drop (border + 2)
    ∃ times calls final, 0 < times ∧
      arriveAll (.new 1024) [frame opening, framed content] = some (calls, final) ∧
      calls.flatten = [opening].map Callback.message ++
        List.replicate times (Callback.error .kCheckSumError) ∧
      ∀ index call, calls[index]? = some call →
        (Callback.error .kCheckSumError ∈ call ↔
          ([opening].flatMap frame ++ framed content).length ≤
            ([frame opening, framed content].take (index + 1)).flatten.length) := by
  intro intact border content
  have split : intact = intact.take border ++ intact[border]?.getD 0 ::
      intact[border + 1]?.getD 0 :: intact.drop (border + 2) := by decide +kernel
  have differ : intact[border]?.getD 0 ≠ intact[border + 1]?.getD 0 := by decide +kernel
  have damage : Damage intact content := Eq.mp (congrArg (Damage · content) split.symm)
    (Damage.exchanged (intact.take border) (intact.drop (border + 2)) differ)
  exact @arriveAll_damaged asciiRuntime adlerZlib asciiRuntime_reads adlerZlib_documented [opening]
    (List.forall_mem_singleton.mpr opening_sendable)
    (List.forall_mem_singleton.mpr opening_accepted) opening opening_sendable
    (by rw [opening_accepted]; nofun) content damage (.new 1024) (Buffer.contents_new 1024)
    _ [] (by simp)

end ProtobufCodec

end ProtobufMq
