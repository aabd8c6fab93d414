import ProtobufMq.Common.FileHelper

namespace ProtobufMq

open Foundation

/-!
# `MessageMapper`: the data file of one queue

A queue keeps its durable messages in one file, as frames: an eight-byte
length, then the serialised payload.  Nothing else is stored, so a message is
struck out by rewriting its payload in place with the validity mark `"0"`, and
the file is compacted by copying the live payloads to a temporary file that
then takes the name of the data file.

The definitions follow `message.hpp` operation by operation.  The lemmas after
them say what each operation does when nothing fails; the file is then always
a sequence of records.
-/

/-- `sizeof(size_t)`. -/
abbrev sizeOfSize : Nat := 8

/-- `std::string::max_size()`. -/
def maxSize : Nat := 2 ^ 62 - 1

/-- The range of a `uint32` field. -/
abbrev uint32Range : Nat := 2 ^ 32

/-- The mark of a message that counts. -/
def validMark : Bytes := ascii "1"

/-- The mark of a message that has been struck out. -/
def invalidMark : Bytes := ascii "0"

/-- The two files of a queue. -/
structure MessageMapper where
  datafile : Bytes
  tmpfile : Bytes
  deriving DecidableEq, Repr

namespace MessageMapper

/-! ## The operations -/

/-- `MessageMapper::createMsgFile`. -/
def createMsgFile (mapper : MessageMapper) : FileM Bool :=
  FileHelper.createFile mapper.datafile

/-- The names of the two files: the directory, closed by a slash, then the
queue name with its suffix. -/
def ofNames (qname basedir : Bytes) : MessageMapper :=
  let basedir := if basedir.getLast? = some (UInt8.ofNat '/'.toNat) then basedir
    else basedir ++ ascii "/"
  ⟨basedir ++ qname ++ ascii ".mqd", basedir ++ qname ++ ascii ".mqd.tmp"⟩

/-- The two files of a queue are different files. -/
theorem ofNames_distinct (qname basedir : Bytes) :
    (ofNames qname basedir).tmpfile ≠ (ofNames qname basedir).datafile := by
  intro same
  have suffixes := List.append_cancel_left same
  exact absurd suffixes (by decide)

/-- Different queues have different data files. -/
theorem ofNames_datafile_injective {first second basedir : Bytes}
    (same : (ofNames first basedir).datafile = (ofNames second basedir).datafile) :
    first = second := by
  have names := List.append_cancel_right same
  exact List.append_cancel_left names

/-- The constructor.  Its data file exists afterwards unless it could not be
created, which only a log line reports. -/
def new (qname basedir : Bytes) : FileM MessageMapper := do
  let mapper := ofNames qname basedir
  let _ ← mapper.createMsgFile
  return mapper

/-- `MessageMapper::removeMsgFile`. -/
def removeMsgFile (mapper : MessageMapper) : FileM Unit := do
  let _ ← FileHelper.removeFile mapper.datafile
  let _ ← FileHelper.removeFile mapper.tmpfile

/-- The private `insert`: append a record to a file.  On success the message
remembers where its body stands; the two fields are 32 bits wide. -/
def insertInto (file : Bytes) (message : Message) : FileM (Bool × Message) := do
  let body := message.payload.serialize
  let offset ← FileHelper.size file
  if ← FileHelper.write file (leBytes sizeOfSize body.length) offset then
    if ← FileHelper.write file body (offset + sizeOfSize) then
      return (true, { message with
        offset := (offset + sizeOfSize) % uint32Range
        length := body.length % uint32Range })
    else
      return (false, message)
  else
    return (false, message)

/-- `MessageMapper::insert`. -/
def insert (mapper : MessageMapper) (message : Message) : FileM (Bool × Message) :=
  insertInto mapper.datafile message

/-- `MessageMapper::remove`: strike a message out, at the place it remembers. -/
def remove (mapper : MessageMapper) (message : Message) : FileM Bool := do
  let body := (message.payload.setValid invalidMark).serialize
  if body.length ≠ message.length then
    return false
  else
    FileHelper.write mapper.datafile body message.offset

section Loading

variable [Protobuf]

/-- The loop of `load`.  Every turn moves the position by at least the header,
so `fuel` turns reach the end of a file of fewer than `fuel` bytes.  A string that
is longer than strings can be is not made; that there may be too little memory for
a shorter one is left out. -/
def loadLoop (file : Bytes) : Nat → Nat → List Message → FileM (Bool × List Message)
  | 0, _, result => return (true, result)
  | fuel + 1, offset, result => do
      if offset < (← FileHelper.size file) then
        match ← FileHelper.read file offset sizeOfSize with
        | none => return (false, result)
        | some header =>
            let length := leNat header
            if maxSize < length then
              throw .lengthError
            else
              match ← FileHelper.read file (offset + sizeOfSize) length with
              | none => return (false, result)
              | some body =>
                  -- the parser's own result is not looked at, only what it left
                  let payload := (Protobuf.parseFromString body).2
                  let next := offset + sizeOfSize + length
                  if payload.valid = invalidMark then
                    loadLoop file fuel next result
                  else
                    loadLoop file fuel next (result ++ [{ payload := payload }])
      else
        return (true, result)

/-- `MessageMapper::load`: the messages of the data file that are not struck
out.  Positions are not filled in. -/
def load (mapper : MessageMapper) : FileM (Bool × List Message) := do
  let size ← FileHelper.size mapper.datafile
  loadLoop mapper.datafile (size + 1) 0 []

/-- The loop of `gc` that copies the live messages. -/
def insertAll (file : Bytes) : List Message → FileM (Bool × List Message)
  | [] => return (true, [])
  | message :: rest => do
      let inserted ← insertInto file message
      if inserted.1 then
        let later ← insertAll file rest
        return (later.1, inserted.2 :: later.2)
      else
        return (false, inserted.2 :: rest)

/-- `MessageMapper::gc`.  The result of creating the temporary file is not
looked at. -/
def gc (mapper : MessageMapper) : FileM (List Message) := do
  let loaded ← mapper.load
  if loaded.1 then
    let _ ← FileHelper.createFile mapper.tmpfile
    let copied ← insertAll mapper.tmpfile loaded.2
    if copied.1 then
      if ← FileHelper.removeFile mapper.datafile then
        let _ ← FileHelper.rename mapper.tmpfile mapper.datafile
        return copied.2
      else
        return copied.2
    else
      return copied.2
  else
    return loaded.2

end Loading

/-! ## What they do when nothing fails -/

/-- Where a message remembers to be, when its record is appended to a file of
the given size. -/
def placedAt (size : Nat) (message : Message) : Message :=
  { message with
    offset := (size + sizeOfSize) % uint32Range
    length := message.payload.serialize.length % uint32Range }

/-- The places of messages appended one after another. -/
def placedFrom : Nat → List Message → List Message
  | _, [] => []
  | size, message :: rest =>
      placedAt size message ::
        placedFrom (size + (frame sizeOfSize message.payload.serialize).length) rest

@[simp] theorem placedAt_payload (size : Nat) (message : Message) :
    (placedAt size message).payload = message.payload := rfl

theorem placedFrom_payloads (size : Nat) (messages : List Message) :
    (placedFrom size messages).map (·.payload) = messages.map (·.payload) := by
  induction messages generalizing size with
  | nil => rfl
  | cons message rest inductionHypothesis =>
      rw [placedFrom, List.map_cons, List.map_cons, inductionHypothesis, placedAt_payload]

section Done

variable {disk : Disk} {script : List Outcome} {file content : Bytes}

theorem insertInto_done (stored : disk file = some content) (message : Message)
    (calm : Undisturbed 2 script) :
    insertInto file message ⟨disk, script⟩ =
      .ok (true, placedAt content.length message)
        ⟨Function.update disk file
          (some (content ++ frame sizeOfSize message.payload.serialize)), script.drop 2⟩ := by
  have outcomes : Undisturbed 1 script ∧ Undisturbed 1 (script.drop 1) := undisturbed_add.mp calm
  have header := write_done stored (leBytes sizeOfSize message.payload.serialize.length)
    content.length outcomes.1
  rw [overwrite_end] at header
  have storedHeader : Function.update disk file
      (some (content ++ leBytes sizeOfSize message.payload.serialize.length)) file =
      some (content ++ leBytes sizeOfSize message.payload.serialize.length) :=
    Function.update_self ..
  have body := write_done storedHeader message.payload.serialize
    (content.length + sizeOfSize) outcomes.2
  have atEnd : content.length + sizeOfSize =
      (content ++ leBytes sizeOfSize message.payload.serialize.length).length := by
    rw [List.length_append, length_leBytes]
  rw [atEnd, overwrite_end, ← atEnd, Function.update_idem, List.append_assoc, List.drop_drop] at body
  rw [insertInto, bind_ok (size_run _)]
  simp only [stored, Option.getD_some]
  rw [bind_ok header]
  simp only [if_true]
  rw [bind_ok body]
  rfl

/-- An insertion that returns found its file, and the message remembers a place
at its end, also when a part of the record was lost. -/
theorem insertInto_returns {message : Message} {world after : World} {inserted : Bool × Message}
    (done : insertInto file message world = .ok inserted after) :
    ∃ content, world.disk file = some content ∧
      inserted = (true, placedAt content.length message) ∧ after.script = world.script.drop 2 := by
  unfold insertInto at done
  rcases bind_eq_ok done with ⟨offset, middle, measured, rest⟩
  cases measured
  rcases bind_eq_ok rest with ⟨headerWritten, headed, header, rest⟩
  rcases write_returns header with ⟨rfl, headedScript, content, stored, _⟩
  rcases bind_eq_ok rest with ⟨bodyWritten, last, body, rest⟩
  rcases write_returns body with ⟨rfl, lastScript, _⟩
  cases rest
  refine ⟨content, stored, ?_, ?_⟩
  · rw [stored]
    rfl
  · rw [lastScript, headedScript, List.drop_drop]

/-- The two writes of a record leave all of it.  Of the length zeros may be lost:
the write of the body fills the gap before it with zeros. -/
def LeavesWhole (body : Bytes) (script : List Outcome) : Prop :=
  Undisturbed 1 (script.drop 1) ∧ (Undisturbed 1 script ∨ ∃ reached,
    upcoming script = .loses reached ∧
      ∀ byte ∈ (leBytes sizeOfSize body.length).drop (min reached (sizeOfSize - 1)), byte = 0)

/-- A part of a body that is written after a part of a header leaves both whole
if the body is all there and the header lacks zeros only. -/
theorem overwrite_after_part {header body part : Bytes} {count : Nat}
    (headerLength : header.length = sizeOfSize) (few : count ≤ sizeOfSize) (nonempty : body ≠ [])
    (prefixed : part <+: body) :
    overwrite (content ++ header.take count) (content.length + sizeOfSize) part =
        content ++ (header ++ body) ↔
      part = body ∧ ∀ byte ∈ header.drop count, byte = 0 := by
  have taken : (header.take count).length = count := by
    rw [List.length_take, headerLength, Nat.min_eq_left few]
  by_cases nothing : part = []
  · have positive := List.length_pos_iff.mpr nonempty
    constructor
    · intro same
      have lengths := congrArg List.length same
      rw [overwrite, if_pos nothing] at lengths
      simp only [List.length_append, taken, headerLength] at lengths
      omega
    · rintro ⟨same, _⟩
      exact absurd (same.symm.trans nothing) nonempty
  · have beyond : (content ++ header.take count).length ≤ content.length + sizeOfSize := by
      rw [List.length_append, taken]
      exact Nat.add_le_add_left few _
    have gap : content.length + sizeOfSize - (content ++ header.take count).length =
        (header.drop count).length := by
      rw [List.length_append, taken, List.length_drop, headerLength]
      omega
    rw [overwrite_beyond beyond nothing, gap, List.append_assoc, List.append_right_inj]
    constructor
    · intro same
      have lengths := congrArg List.length same
      simp only [List.length_append, List.length_replicate, List.length_drop, taken, headerLength]
        at lengths
      have all : part = body := prefixed.eq_of_length (by omega)
      rw [all, ← List.append_assoc] at same
      have headers := List.append_cancel_right same
      conv_rhs at headers => rw [← List.take_append_drop count header]
      have zeros := List.append_cancel_left headers
      exact ⟨all, (List.eq_replicate_iff.mp zeros.symm).2⟩
    · rintro ⟨all, zeros⟩
      rw [all, ← List.eq_replicate_iff.mpr ⟨rfl, zeros⟩, ← List.append_assoc,
        List.take_append_drop]

/-- A write at the end of a part of a file that returns, and what of it is there. -/
theorem write_returns_part {world after : World} {data : Bytes} {offset : Nat} {result : Bool}
    (stored : world.disk file = some content)
    (written : FileHelper.write file data offset world = .ok result after) :
    ∃ count ≤ data.length, after.disk = Function.update world.disk file
        (some (overwrite content offset (data.take count))) ∧
      (count = data.length ∧ Undisturbed 1 world.script ∨ ∃ reached,
        upcoming world.script = .loses reached ∧ count = min reached (data.length - 1)) := by
  rcases write_returns written with ⟨_, _, other, there, ⟨calm, left⟩ | ⟨reached, lost, left⟩⟩
  · cases stored.symm.trans there
    refine ⟨data.length, Nat.le_refl _, ?_, Or.inl ⟨rfl, calm⟩⟩
    rw [List.take_length, left]
  · cases stored.symm.trans there
    have few : min reached (data.length - 1) ≤ data.length :=
      (Nat.min_le_right _ _).trans (Nat.sub_le _ _)
    exact ⟨_, few, left, Or.inr ⟨reached, lost, rfl⟩⟩

/-- An insertion that returns leaves the whole record if its writes do. -/
theorem insertInto_whole_iff {message : Message} {world after : World} {inserted : Bool × Message}
    (stored : world.disk file = some content) (nonempty : message.payload.serialize ≠ [])
    (done : insertInto file message world = .ok inserted after) :
    after.disk file = some (content ++ frame sizeOfSize message.payload.serialize) ↔
      LeavesWhole message.payload.serialize world.script := by
  have headerLength : (leBytes sizeOfSize message.payload.serialize.length).length = sizeOfSize :=
    length_leBytes ..
  have positive := List.length_pos_iff.mpr nonempty
  unfold insertInto at done
  rcases bind_eq_ok done with ⟨offset, middle, measured, rest⟩
  cases measured
  rcases bind_eq_ok rest with ⟨headerWritten, headed, header, rest⟩
  rcases write_returns header with ⟨rfl, headedScript, _⟩
  rcases bind_eq_ok rest with ⟨bodyWritten, last, body, rest⟩
  rcases write_returns body with ⟨rfl, _⟩
  cases rest
  rw [stored, Option.getD_some] at header body
  rcases write_returns_part stored header with ⟨count, few, headedDisk, headedBy⟩
  rw [overwrite_end] at headedDisk
  rw [headerLength] at few headedBy
  have storedHeader : headed.disk file = some (content ++
      (leBytes sizeOfSize message.payload.serialize.length).take count) := by
    rw [headedDisk]
    exact Function.update_self ..
  rcases write_returns_part storedHeader body with ⟨more, fewMore, lastDisk, bodyBy⟩
  rw [headedScript] at bodyBy
  rw [lastDisk, Function.update_self, Option.some.injEq, frame,
    overwrite_after_part headerLength few nonempty (List.take_prefix _ _), LeavesWhole]
  refine and_congr ?_ ?_
  · constructor
    · intro all
      rcases bodyBy with ⟨_, calm⟩ | ⟨reached, lost, same⟩
      · exact calm
      · have lengths := congrArg List.length all
        rw [List.length_take] at lengths
        omega
    · intro calm
      rcases bodyBy with ⟨same, _⟩ | ⟨reached, lost, _⟩
      · rw [same, List.take_length]
      · cases (undisturbed_one_iff.mp calm).symm.trans lost
  · constructor
    · intro zeros
      rcases headedBy with ⟨_, calm⟩ | ⟨reached, lost, same⟩
      · exact Or.inl calm
      · exact Or.inr ⟨reached, lost, same ▸ zeros⟩
    · rintro (calm | ⟨reached, lost, zeros⟩)
      · rcases headedBy with ⟨same, _⟩ | ⟨other, otherLost, _⟩
        · rw [same, List.drop_of_length_le (Nat.le_of_eq headerLength)]
          intro byte member
          cases member
        · cases (undisturbed_one_iff.mp calm).symm.trans otherLost
      · rcases headedBy with ⟨_, calm⟩ | ⟨other, otherLost, same⟩
        · cases (undisturbed_one_iff.mp calm).symm.trans lost
        · cases otherLost.symm.trans lost
          rw [same]
          exact zeros

/-- An insertion changes no other file. -/
theorem insertInto_frame {message : Message} {world after : World} {inserted : Bool × Message}
    (done : insertInto file message world = .ok inserted after) {other : Bytes}
    (distinct : other ≠ file) : after.disk other = world.disk other := by
  unfold insertInto at done
  rcases bind_eq_ok done with ⟨offset, middle, measured, rest⟩
  cases measured
  rcases bind_eq_ok rest with ⟨headerWritten, headed, header, rest⟩
  have first := write_frame header distinct
  cases headerWritten with
  | false =>
      cases rest
      exact first
  | true =>
      rcases bind_eq_ok rest with ⟨bodyWritten, last, body, rest⟩
      have second := (write_frame body distinct).trans first
      cases bodyWritten <;>
      · cases rest
        exact second

/-- Each insertion takes the outcomes of two writes. -/
theorem outcomes_cons (message : Message) (rest : List Message) :
    2 * (message :: rest).length = 2 + 2 * rest.length := by
  rw [List.length_cons]
  omega

theorem insertAll_done (stored : disk file = some content) (messages : List Message)
    (calm : Undisturbed (2 * messages.length) script) :
    insertAll file messages ⟨disk, script⟩ =
      .ok (true, placedFrom content.length messages)
        ⟨Function.update disk file
          (some (content ++ frames sizeOfSize (messages.map (·.payload.serialize)))),
          script.drop (2 * messages.length)⟩ := by
  induction messages generalizing disk content script with
  | nil =>
      have unchanged : Function.update disk file (some content) = disk := by
        rw [← stored, Function.update_eq_self]
      rw [List.map_nil, frames_nil, List.append_nil, unchanged]
      rfl
  | cons message rest inductionHypothesis =>
      rw [outcomes_cons] at calm ⊢
      have outcomes := undisturbed_add.mp calm
      have first := insertInto_done stored message outcomes.1
      have storedFirst : Function.update disk file
          (some (content ++ frame sizeOfSize message.payload.serialize)) file =
          some (content ++ frame sizeOfSize message.payload.serialize) :=
        Function.update_self ..
      have later := inductionHypothesis storedFirst outcomes.2
      rw [Function.update_idem, List.append_assoc, List.length_append, List.drop_drop] at later
      rw [insertAll, bind_ok first]
      simp only [if_true]
      rw [bind_ok later]
      rfl

/-- The payload that `insertInto` returns is the one it was given. -/
theorem insertInto_payload {message : Message} {world after : World}
    {inserted : Bool × Message}
    (done : insertInto file message world = .ok inserted after) :
    inserted.2.payload = message.payload := by
  unfold insertInto at done
  rcases bind_eq_ok done with ⟨offset, middle, _, rest⟩
  rcases bind_eq_ok rest with ⟨headerWritten, middle, _, rest⟩
  cases headerWritten with
  | false =>
      cases rest
      rfl
  | true =>
      rcases bind_eq_ok rest with ⟨bodyWritten, middle, _, rest⟩
      cases bodyWritten <;>
      · cases rest
        rfl

/-- The copied messages are those that were given, copied completely or not. -/
theorem insertAll_payloads {messages : List Message} {copied : Bool × List Message}
    {world after : World} (done : insertAll file messages world = .ok copied after) :
    copied.2.map Message.payload = messages.map Message.payload := by
  induction messages generalizing copied world with
  | nil =>
      cases done
      rfl
  | cons message rest inductionHypothesis =>
      rcases bind_eq_ok done with ⟨inserted, middle, wrote, done⟩
      have same := insertInto_payload wrote
      cases written : inserted.1 with
      | false =>
          simp only [written, Bool.false_eq_true, if_false] at done
          cases done
          rw [List.map_cons, List.map_cons, same]
      | true =>
          simp only [written, if_true] at done
          rcases bind_eq_ok done with ⟨later, middle, continued, done⟩
          cases done
          rw [List.map_cons, List.map_cons, same, inductionHypothesis continued]

variable {mapper : MessageMapper}

/-- Overwriting in place happens exactly when the remembered length is that of
the struck-out payload. -/
theorem remove_done (stored : disk mapper.datafile = some content) (message : Message)
    (length : (message.payload.setValid invalidMark).serialize.length = message.length)
    (calm : Undisturbed 1 script) :
    mapper.remove message ⟨disk, script⟩ =
      .ok true ⟨Function.update disk mapper.datafile
        (some (overwrite content message.offset
          (message.payload.setValid invalidMark).serialize)), script.drop 1⟩ := by
  rw [remove, if_neg (not_not_intro length)]
  exact write_done stored _ _ calm

end Done

end MessageMapper

/-! ## Records -/

/-- A serialised payload that can be read back fits in a string. -/
theorem Payload.Sound.fits {payload : Payload} (sound : payload.Sound) :
    payload.serialize.length ≤ maxSize :=
  Nat.le_of_lt (sound.small.trans (by decide))

section Records

variable [Protobuf]

/-- A body that the program could have written and can read back: it is no longer
than a string can be, and it parses, to a payload that can be written again. -/
structure Record where
  body : Bytes
  payload : Payload
  parsed : Protobuf.parseFromString body = (true, payload)
  bodyFits : body.length ≤ maxSize
  sound : payload.Sound

/-- A payload that is not struck out. -/
def Payload.Live (payload : Payload) : Prop :=
  payload.valid ≠ invalidMark

instance (payload : Payload) : Decidable payload.Live :=
  inferInstanceAs (Decidable (payload.valid ≠ invalidMark))

namespace Record

/-- The file that holds a list of records. -/
def file (records : List Record) : Bytes :=
  frames sizeOfSize (records.map Record.body)

/-- The payloads of the records that are not struck out, in file order. -/
def livePayloads (records : List Record) : List Payload :=
  (records.map Record.payload).filter Payload.Live

/-- The record that the program writes for a payload. -/
def ofPayload (undoes : Undoes) (payload : Payload) (sound : payload.Sound) : Record :=
  ⟨payload.serialize, payload, undoes.parse sound, sound.fits, sound⟩

theorem file_concat (records : List Record) (record : Record) :
    file (records ++ [record]) = file records ++ frame sizeOfSize record.body := by
  rw [file, List.map_append, List.map_singleton, frames_concat]
  rfl

theorem length_le_file_length (records : List Record) :
    records.length ≤ (file records).length := by
  induction records with
  | nil => exact Nat.zero_le _
  | cons record rest inductionHypothesis =>
      have more : (file (record :: rest)).length =
          sizeOfSize + (record.body.length + (file rest).length) := by
        rw [file, List.map_cons, frames_cons, List.length_append, List.length_append,
          length_leBytes]
        rfl
      have headerSize : 0 < sizeOfSize := by decide
      rw [more, List.length_cons]
      omega

theorem livePayloads_append (first second : List Record) :
    livePayloads (first ++ second) = livePayloads first ++ livePayloads second := by
  rw [livePayloads, List.map_append, List.filter_append]
  rfl

theorem livePayloads_cons_of_live {record : Record} (live : record.payload.Live)
    (rest : List Record) :
    livePayloads (record :: rest) = record.payload :: livePayloads rest := by
  rw [livePayloads, List.map_cons, List.filter_cons_of_pos (by simpa using live)]
  rfl

theorem livePayloads_cons_of_dead {record : Record} (dead : ¬ record.payload.Live)
    (rest : List Record) : livePayloads (record :: rest) = livePayloads rest := by
  rw [livePayloads, List.map_cons, List.filter_cons_of_neg (by simpa using dead)]
  rfl

theorem livePayloads_sound {records : List Record} {payload : Payload}
    (member : payload ∈ livePayloads records) : payload.Sound := by
  rcases List.mem_map.mp (List.mem_of_mem_filter member) with ⟨record, _, same⟩
  exact same ▸ record.sound

/-- The file that a collection writes holds records again, and the same
payloads live in it. -/
theorem exists_compacted (undoes : Undoes) (records : List Record) :
    ∃ compacted : List Record,
      frames sizeOfSize ((livePayloads records).map Payload.serialize) = file compacted ∧
      livePayloads compacted = livePayloads records := by
  have payloads : (livePayloads records).attach.map Subtype.val = livePayloads records :=
    List.attach_map_subtype_val _
  refine ⟨(livePayloads records).attach.map fun entry =>
    ofPayload undoes entry.1 (livePayloads_sound entry.2), ?_, ?_⟩
  · rw [file, List.map_map]
    have bodies : (livePayloads records).attach.map (Record.body ∘ fun entry =>
        ofPayload undoes entry.1 (livePayloads_sound entry.2)) =
        ((livePayloads records).attach.map Subtype.val).map Payload.serialize := by
      rw [List.map_map]
      rfl
    rw [bodies, payloads]
  · have stored : ((livePayloads records).attach.map fun entry =>
        ofPayload undoes entry.1 (livePayloads_sound entry.2)).map Record.payload =
        livePayloads records :=
      List.map_map.trans payloads
    rw [livePayloads, stored, livePayloads, List.filter_filter]
    exact List.filter_congr fun payload _ => Bool.and_self _

end Record

end Records

namespace MessageMapper

section Loading

variable [Protobuf]

/-- What the loop makes of the bodies it reads: it keeps what the parser left
unless that is struck out. -/
def countedPayloads (bodies : List Bytes) : List Payload :=
  (bodies.map fun body => (Protobuf.parseFromString body).2).filter Payload.Live

theorem countedPayloads_cons_of_live {body : Bytes}
    (live : (Protobuf.parseFromString body).2.Live) (rest : List Bytes) :
    countedPayloads (body :: rest) =
      (Protobuf.parseFromString body).2 :: countedPayloads rest := by
  rw [countedPayloads, List.map_cons, List.filter_cons_of_pos (by simpa using live)]
  rfl

theorem countedPayloads_cons_of_dead {body : Bytes}
    (dead : ¬ (Protobuf.parseFromString body).2.Live) (rest : List Bytes) :
    countedPayloads (body :: rest) = countedPayloads rest := by
  rw [countedPayloads, List.map_cons, List.filter_cons_of_neg (by simpa using dead)]
  rfl

/-- What is counted of records is their live payloads. -/
theorem countedPayloads_records (records : List Record) :
    countedPayloads (records.map Record.body) = Record.livePayloads records := by
  rw [countedPayloads, Record.livePayloads, List.map_map]
  apply congrArg (List.filter _)
  apply List.map_congr_left
  intro record _
  exact congrArg Prod.snd record.parsed

/-- The loop passes over whole bodies, whatever stands after them. -/
theorem loadLoop_frames (file : Bytes) (before : Bytes) (bodies : List Bytes) (tail : Bytes)
    (fit : ∀ body ∈ bodies, body.length ≤ maxSize) {world : World}
    (stored : world.disk file = some (before ++ frames sizeOfSize bodies ++ tail))
    (fuel : Nat) (result : List Message) :
    loadLoop file (bodies.length + fuel) before.length result world =
      loadLoop file fuel (before ++ frames sizeOfSize bodies).length
        (result ++ (countedPayloads bodies).map (fun payload => { payload := payload }))
        world := by
  induction bodies generalizing before result with
  | nil =>
      rw [List.length_nil, Nat.zero_add, countedPayloads, List.map_nil, List.filter_nil,
        List.map_nil, List.append_nil, frames_nil, List.append_nil]
  | cons data rest inductionHypothesis =>
      rw [List.forall_mem_cons] at fit
      have lengthFits : data.length < 256 ^ sizeOfSize :=
        Nat.lt_of_le_of_lt fit.1 (by decide)
      have first : before ++ frames sizeOfSize (data :: rest) =
          before ++ leBytes sizeOfSize data.length ++ data ++ frames sizeOfSize rest := by
        rw [frames_cons, ← List.append_assoc, ← List.append_assoc]
      have inside : before.length < ((world.disk file).getD []).length := by
        rw [stored, first, Option.getD_some]
        have headerSize : 0 < sizeOfSize := by decide
        simp only [List.length_append, length_leBytes]
        omega
      have header : (world.disk file).bind (fun content =>
          readAt content before.length sizeOfSize) = some (leBytes sizeOfSize data.length) := by
        have shape : before ++ frames sizeOfSize (data :: rest) ++ tail =
            before ++ leBytes sizeOfSize data.length ++
              (data ++ frames sizeOfSize rest ++ tail) := by
          rw [first]
          simp only [List.append_assoc]
        rw [stored, Option.bind_some, shape]
        simpa only [length_leBytes] using
          readAt_of_append before (leBytes sizeOfSize data.length)
            (data ++ frames sizeOfSize rest ++ tail)
      have position : before.length + sizeOfSize =
          (before ++ leBytes sizeOfSize data.length).length := by
        rw [List.length_append, length_leBytes]
      have body : (world.disk file).bind (fun content =>
          readAt content (before.length + sizeOfSize) data.length) = some data := by
        rw [stored, Option.bind_some, first, position, List.append_assoc _ _ tail]
        exact readAt_of_append _ _ _
      have nextPosition : before.length + sizeOfSize + data.length =
          (before ++ leBytes sizeOfSize data.length ++ data).length := by
        rw [List.length_append, ← position]
      have continued := fun result => inductionHypothesis
        (before ++ leBytes sizeOfSize data.length ++ data) fit.2
        (by rw [stored, first]) result
      have small : ¬ maxSize < data.length := Nat.not_lt_of_le fit.1
      have turns : (data :: rest).length + fuel = rest.length + fuel + 1 := by
        rw [List.length_cons]
        omega
      rw [turns, loadLoop, bind_ok (size_run world)]
      simp only [inside, if_true]
      rw [bind_ok (read_run world _ sizeOfSize), header]
      simp only [leNat_leBytes_of_lt lengthFits, small, if_false]
      rw [bind_ok (read_run world _ data.length), body]
      simp only [nextPosition]
      by_cases struck : (Protobuf.parseFromString data).2.valid = invalidMark
      · have dead : ¬ (Protobuf.parseFromString data).2.Live := fun live => live struck
        rw [if_pos struck, continued, first, countedPayloads_cons_of_dead dead]
      · have live : (Protobuf.parseFromString data).2.Live := struck
        rw [if_neg struck, continued, first, countedPayloads_cons_of_live live, List.map_cons,
          List.append_assoc result]
        rfl

/-- The loop passes over records, whatever stands after them. -/
theorem loadLoop_through (file : Bytes) (before : Bytes) (records : List Record) (tail : Bytes)
    {world : World} (stored : world.disk file = some (before ++ Record.file records ++ tail))
    (fuel : Nat) (result : List Message) :
    loadLoop file (records.length + fuel) before.length result world =
      loadLoop file fuel (before ++ Record.file records).length
        (result ++ (Record.livePayloads records).map (fun payload => { payload := payload }))
        world := by
  have fit : ∀ body ∈ records.map Record.body, body.length ≤ maxSize := by
    intro body member
    rcases List.mem_map.mp member with ⟨record, _, rfl⟩
    exact record.bodyFits
  have passed := loadLoop_frames file before (records.map Record.body) tail fit stored fuel result
  rwa [List.length_map, countedPayloads_records] at passed

/-- What the loop has found stays found. -/
theorem loadLoop_prefix {file : Bytes} {fuel offset : Nat} {result : List Message}
    {loaded : Bool × List Message} {world after : World}
    (done : loadLoop file fuel offset result world = .ok loaded after) : result <+: loaded.2 := by
  induction fuel generalizing offset result with
  | zero =>
      cases done
      exact List.prefix_rfl
  | succ fuel inductionHypothesis =>
      rw [loadLoop, bind_ok (size_run world)] at done
      by_cases inside : offset < ((world.disk file).getD []).length
      · simp only [inside, if_true] at done
        rw [bind_ok (read_run world _ sizeOfSize)] at done
        cases header : (world.disk file).bind fun content => readAt content offset sizeOfSize with
        | none =>
            rw [header] at done
            cases done
            exact List.prefix_rfl
        | some bytes =>
            simp only [header] at done
            by_cases long : maxSize < leNat bytes
            · rw [if_pos long] at done
              cases done
            · rw [if_neg long, bind_ok (read_run world _ (leNat bytes))] at done
              cases body : (world.disk file).bind fun content =>
                  readAt content (offset + sizeOfSize) (leNat bytes) with
              | none =>
                  rw [body] at done
                  cases done
                  exact List.prefix_rfl
              | some data =>
                  simp only [body] at done
                  by_cases struck : (Protobuf.parseFromString data).2.valid = invalidMark
                  · rw [if_pos struck] at done
                    exact inductionHypothesis done
                  · rw [if_neg struck] at done
                    exact (List.prefix_append _ _).trans (inductionHypothesis done)
      · simp only [inside, if_false] at done
        cases done
        exact List.prefix_rfl

/-- Loading a file of records gives its live messages, in order. -/
theorem load_records {mapper : MessageMapper} {world : World} {records : List Record}
    (stored : world.disk mapper.datafile = some (Record.file records)) :
    mapper.load world =
      .ok (true, (Record.livePayloads records).map (fun payload => { payload := payload })) world := by
  have count := Record.length_le_file_length records
  have turns : (Record.file records).length + 1 =
      records.length + ((Record.file records).length - records.length + 1) := by
    omega
  have atEnd : ¬ (Record.file records).length < ((world.disk mapper.datafile).getD []).length := by
    rw [stored, Option.getD_some]
    exact Nat.lt_irrefl _
  have through := loadLoop_through mapper.datafile [] records []
    (by rw [stored, List.append_nil]; rfl)
    ((Record.file records).length - records.length + 1) []
  rw [load, bind_ok (size_run world)]
  rw [stored, Option.getD_some, turns]
  refine through.trans ?_
  rw [loadLoop, bind_ok (size_run world)]
  simp only [List.nil_append, atEnd, if_false]
  rfl

/-- Loading a file that begins with records finds at least their live messages. -/
theorem load_begins {mapper : MessageMapper} {world after : World} {records : List Record}
    {tail : Bytes} {loaded : Bool × List Message}
    (stored : world.disk mapper.datafile = some (Record.file records ++ tail))
    (done : mapper.load world = .ok loaded after) :
    (Record.livePayloads records).map (fun payload => { payload := payload }) <+: loaded.2 := by
  have count := Record.length_le_file_length records
  have turns : (Record.file records ++ tail).length + 1 =
      records.length + ((Record.file records ++ tail).length - records.length + 1) := by
    rw [List.length_append]
    omega
  rw [load, bind_ok (size_run _), stored, Option.getD_some, turns] at done
  have through := loadLoop_through mapper.datafile [] records tail stored
    ((Record.file records ++ tail).length - records.length + 1) []
  exact loadLoop_prefix (through.symm.trans done)

/-- A collection gives back the messages that it loaded. -/
theorem gc_payloads {mapper : MessageMapper} {world after : World} {messages : List Message}
    (done : mapper.gc world = .ok messages after) :
    ∃ loaded middle, mapper.load world = .ok loaded middle ∧
      messages.map Message.payload = loaded.2.map Message.payload := by
  rcases bind_eq_ok done with ⟨loaded, middle, load, done⟩
  refine ⟨loaded, middle, load, ?_⟩
  cases complete : loaded.1 with
  | false =>
      simp only [complete, Bool.false_eq_true, if_false] at done
      cases done
      rfl
  | true =>
      simp only [complete, if_true] at done
      rcases bind_eq_ok done with ⟨_, _, _, done⟩
      rcases bind_eq_ok done with ⟨copied, _, copy, done⟩
      rw [← insertAll_payloads copy]
      cases written : copied.1 with
      | false =>
          simp only [written, Bool.false_eq_true, if_false] at done
          cases done
          rfl
      | true =>
          simp only [written, if_true] at done
          rcases bind_eq_ok done with ⟨removed, _, _, done⟩
          cases removed with
          | false =>
              cases done
              rfl
          | true =>
              rcases bind_eq_ok done with ⟨_, _, _, done⟩
              cases done
              rfl

/-- Loading a data file that is not there gives nothing. -/
theorem load_absent {mapper : MessageMapper} {world : World}
    (absent : world.disk mapper.datafile = none) : mapper.load world = .ok (true, []) world := by
  rw [load, bind_ok (size_run world), absent]
  change loadLoop mapper.datafile 1 0 [] world = _
  rw [loadLoop, bind_ok (size_run world), absent]
  rfl

end Loading

/-- Writing a file, removing another, and giving the first the other's name
leaves the other with the written content and the first gone. -/
private theorem replaced_file (disk : Disk) {tmpfile datafile : Bytes}
    (distinct : tmpfile ≠ datafile) (content : Option Bytes) :
    Function.update (Function.update (Function.update (Function.update disk tmpfile content)
      datafile none) tmpfile none) datafile content =
      Function.update (Function.update disk datafile content) tmpfile none := by
  funext name
  by_cases isTmp : name = tmpfile
  · subst name
    rw [Function.update_of_ne distinct, Function.update_self, Function.update_self]
  · by_cases isData : name = datafile
    · subst name
      rw [Function.update_self, Function.update_of_ne isTmp, Function.update_self]
    · rw [Function.update_of_ne isData, Function.update_of_ne isTmp, Function.update_of_ne isData,
        Function.update_of_ne isTmp, Function.update_of_ne isTmp, Function.update_of_ne isData]

section Collection

variable [Protobuf] {mapper : MessageMapper} {disk : Disk} {records : List Record}

/-- The messages that a collection returns, with their new places. -/
def collected (tmpSize : Nat) (records : List Record) : List Message :=
  placedFrom tmpSize ((Record.livePayloads records).map (fun payload => { payload := payload }))

/-- The payloads of the collected messages are the live ones. -/
theorem collected_payloads (tmpSize : Nat) (records : List Record) :
    (collected tmpSize records).map (·.payload) = Record.livePayloads records := by
  rw [collected, placedFrom_payloads, List.map_map]
  exact List.map_id _

/-- The changing operations of a collection: creating the temporary file,
writing each live record in two parts, removing, and renaming. -/
def collectingOperations (mapper : MessageMapper) (disk : Disk) (records : List Record) : Nat :=
  creating disk mapper.tmpfile + (2 * (Record.livePayloads records).length + (1 + 1))

/-- The disk after a collection: the old content of the temporary file, followed
by the live records, is the new data file. -/
def collectedDisk (mapper : MessageMapper) (disk : Disk) (records : List Record) : Disk :=
  Function.update (Function.update disk mapper.datafile
    (some ((disk mapper.tmpfile).getD [] ++
      frames sizeOfSize ((Record.livePayloads records).map Payload.serialize))))
    mapper.tmpfile none

/-- A collection whose operations are all carried out. -/
theorem gc_done {script : List Outcome} (distinct : mapper.tmpfile ≠ mapper.datafile)
    (stored : disk mapper.datafile = some (Record.file records))
    (calm : Undisturbed (mapper.collectingOperations disk records) script) :
    mapper.gc ⟨disk, script⟩ =
      .ok (collected ((disk mapper.tmpfile).getD []).length records)
        ⟨mapper.collectedDisk disk records,
          script.drop (mapper.collectingOperations disk records)⟩ := by
  have messages : ((Record.livePayloads records).map
      (fun payload => ({ payload := payload } : Message))).length =
      (Record.livePayloads records).length := List.length_map ..
  unfold collectingOperations at calm ⊢
  rw [← messages] at calm ⊢
  have outcomes := undisturbed_add.mp calm
  have outcomesCopied := undisturbed_add.mp outcomes.2
  have outcomesMoved := undisturbed_add.mp outcomesCopied.2
  have loaded : mapper.load ⟨disk, script⟩ = _ := load_records stored
  have created := createFile_done mapper.tmpfile outcomes.1
  have present : Function.update disk mapper.tmpfile (some ((disk mapper.tmpfile).getD []))
      mapper.tmpfile = some ((disk mapper.tmpfile).getD []) := Function.update_self ..
  have copied := insertAll_done present
    ((Record.livePayloads records).map (fun payload => { payload := payload })) outcomesCopied.1
  have written : ((Record.livePayloads records).map
      (fun payload => ({ payload := payload } : Message))).map (·.payload.serialize) =
      (Record.livePayloads records).map Payload.serialize := List.map_map
  rw [Function.update_idem, written] at copied
  have dataThere : Function.update disk mapper.tmpfile
      (some ((disk mapper.tmpfile).getD [] ++
        frames sizeOfSize ((Record.livePayloads records).map Payload.serialize)))
      mapper.datafile = some (Record.file records) := by
    rw [Function.update_of_ne distinct.symm, stored]
  have removed := removeFile_done dataThere outcomesMoved.1
  have tmpThere : Function.update (Function.update disk mapper.tmpfile
      (some ((disk mapper.tmpfile).getD [] ++
        frames sizeOfSize ((Record.livePayloads records).map Payload.serialize))))
      mapper.datafile none mapper.tmpfile =
      some ((disk mapper.tmpfile).getD [] ++
        frames sizeOfSize ((Record.livePayloads records).map Payload.serialize)) := by
    rw [Function.update_of_ne distinct, Function.update_self]
  have renamed := rename_done tmpThere mapper.datafile outcomesMoved.2
  rw [replaced_file disk distinct] at renamed
  rw [gc, bind_ok loaded]
  simp only [if_true]
  rw [bind_ok created, bind_ok copied]
  simp only [if_true]
  rw [bind_ok removed]
  simp only [if_true]
  rw [bind_ok renamed, List.drop_drop, List.drop_drop, List.drop_drop]
  rfl

/-- A collection in which nothing fails. -/
theorem gc_calm (distinct : mapper.tmpfile ≠ mapper.datafile)
    (stored : disk mapper.datafile = some (Record.file records)) :
    mapper.gc ⟨disk, []⟩ =
      .ok (collected ((disk mapper.tmpfile).getD []).length records)
        ⟨mapper.collectedDisk disk records, []⟩ := by
  have done := gc_done distinct stored (undisturbed_nil _)
  rwa [List.drop_nil] at done

end Collection

end MessageMapper

end ProtobufMq
