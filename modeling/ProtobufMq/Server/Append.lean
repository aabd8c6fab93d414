import ProtobufMq.Server.DataFile

namespace ProtobufMq

open Foundation

/-!
# Messages appended one after another

Every insertion asks for the size of the file and writes there, so the places
of the messages follow from the sizes of those before them.  What is read back
is what was written as long as the lengths fit the header.  The place that a
message remembers is another matter: the two fields have 32 bits and the file
has no such limit.
-/

namespace MessageMapper

/-- `MessageMapper::insert` for each of the messages, whatever it returns. -/
def inserts (mapper : MessageMapper) : List Message → FileM (List (Bool × Message))
  | [] => return []
  | message :: rest => do
      let inserted ← mapper.insert message
      let later ← mapper.inserts rest
      return inserted :: later

/-- Where the body of a message goes in a file that had `size` bytes. -/
def bodyPosition (size : Nat) (bodies : List Bytes) (index : Nat) : Nat :=
  size + (frames sizeOfSize (bodies.take index)).length + sizeOfSize

/-- The message at an index is placed after the records of those before it. -/
theorem getElem?_placedFrom (size : Nat) (messages : List Message) (index : Nat) :
    (placedFrom size messages)[index]? = messages[index]?.map (placedAt
      (size + (frames sizeOfSize ((messages.map (·.payload.serialize)).take index)).length)) := by
  induction messages generalizing size index with
  | nil => rfl
  | cons message rest inductionHypothesis =>
      cases index with
      | zero => rfl
      | succ index =>
          have further : (frames sizeOfSize
              (((message :: rest).map (·.payload.serialize)).take (index + 1))).length =
              (frame sizeOfSize message.payload.serialize).length +
                (frames sizeOfSize ((rest.map (·.payload.serialize)).take index)).length := by
            rw [List.map_cons, List.take_succ_cons, frames, List.flatMap_cons, List.length_append]
            rfl
          rw [placedFrom, List.getElem?_cons_succ, List.getElem?_cons_succ,
            inductionHypothesis, further, Nat.add_assoc]

theorem all_accepted (messages : List Message) :
    ∀ entry ∈ messages.map fun message => (true, message), entry.1 = true := by
  intro entry member
  rcases List.mem_map.mp member with ⟨message, _, rfl⟩
  rfl

section Inserting

variable {mapper : MessageMapper} {disk : Disk} {script : List Outcome} {content : Bytes}
variable {messages : List Message} {inserted : List (Bool × Message)} {after : World}

theorem inserts_done (stored : disk mapper.datafile = some content) (messages : List Message)
    (calm : Undisturbed (2 * messages.length) script) :
    mapper.inserts messages ⟨disk, script⟩ =
      .ok ((placedFrom content.length messages).map fun message => (true, message))
        ⟨Function.update disk mapper.datafile
          (some (content ++ frames sizeOfSize (messages.map (·.payload.serialize)))),
          script.drop (2 * messages.length)⟩ := by
  induction messages generalizing disk content script with
  | nil =>
      have unchanged : Function.update disk mapper.datafile (some content) = disk := by
        rw [← stored, Function.update_eq_self]
      rw [List.map_nil, frames_nil, List.append_nil, unchanged]
      rfl
  | cons message rest inductionHypothesis =>
      rw [outcomes_cons] at calm ⊢
      have outcomes := undisturbed_add.mp calm
      have first : mapper.insert message ⟨disk, script⟩ = _ :=
        insertInto_done stored message outcomes.1
      have storedFirst : Function.update disk mapper.datafile
          (some (content ++ frame sizeOfSize message.payload.serialize)) mapper.datafile =
          some (content ++ frame sizeOfSize message.payload.serialize) :=
        Function.update_self ..
      have later := inductionHypothesis storedFirst outcomes.2
      rw [Function.update_idem, List.append_assoc, List.length_append, List.drop_drop] at later
      rw [inserts, bind_ok first, bind_ok later]
      rfl

end Inserting

/-! ## What is read back -/

section Reading

variable [Protobuf] {mapper : MessageMapper} {disk : Disk} {script : List Outcome}
variable {records : List Record}

/-- The file after the insertions holds records again: the old ones, and one for
each message. -/
theorem file_append_ofPayload (undoes : Undoes) (records : List Record) {messages : List Message}
    (live : ∀ message ∈ messages, message.payload.Live)
    (sound : ∀ message ∈ messages, message.payload.Sound) :
    ∃ more : List Record,
      Record.file records ++ frames sizeOfSize (messages.map (·.payload.serialize)) =
        Record.file (records ++ more) ∧
      Record.livePayloads (records ++ more) =
        Record.livePayloads records ++ messages.map (·.payload) := by
  induction messages generalizing records with
  | nil =>
      refine ⟨[], ?_, ?_⟩
      · rw [List.map_nil, frames_nil, List.append_nil, List.append_nil]
      · rw [List.append_nil, List.map_nil, List.append_nil]
  | cons message rest inductionHypothesis =>
      rw [List.forall_mem_cons] at live sound
      let record := Record.ofPayload undoes message.payload sound.1
      rcases inductionHypothesis (records ++ [record]) live.2 sound.2 with ⟨more, file, payloads⟩
      refine ⟨record :: more, ?_, ?_⟩
      · rw [List.append_cons, ← file, Record.file_concat, List.map_cons, frames,
          List.flatMap_cons, List.append_assoc]
        rfl
      · have lives : Record.livePayloads [record] = [message.payload] :=
          Record.livePayloads_cons_of_live live.1 []
        rw [List.append_cons, payloads, Record.livePayloads_append, lives, List.append_assoc]
        rfl

/-- What insertions leave that were not disturbed: the messages of the old file
and then the inserted ones are loaded, and each inserted message remembers where
its body is, which has its length before it. -/
structure Appended (mapper : MessageMapper) (records : List Record) (messages : List Message)
    (inserted : List (Bool × Message)) (after : World) : Prop where
  accepted : ∀ entry ∈ inserted, entry.1 = true
  payloads : inserted.map (·.2.payload) = messages.map (·.payload)
  loads : mapper.load after = .ok (true, (Record.livePayloads records ++
    messages.map (·.payload)).map fun payload => { payload := payload }) after
  delimited : ∃ content, after.disk mapper.datafile = some content ∧
    ∀ index message, (inserted.map Prod.snd)[index]? = some message →
      bodyPosition (Record.file records).length (messages.map (·.payload.serialize)) index <
        uint32Range → message.payload.serialize.length < uint32Range →
      readAt content message.offset message.length = some message.payload.serialize ∧
      readAt content (message.offset - sizeOfSize) sizeOfSize =
        some (leBytes sizeOfSize message.payload.serialize.length)

/-- Live messages that are inserted without a write failing are loaded after
those of the old file, in order. -/
theorem inserts_appended (undoes : Undoes)
    (stored : disk mapper.datafile = some (Record.file records)) (messages : List Message)
    (live : ∀ message ∈ messages, message.payload.Live)
    (sound : ∀ message ∈ messages, message.payload.Sound)
    (calm : Undisturbed (2 * messages.length) script) :
    ∃ inserted after, mapper.inserts messages ⟨disk, script⟩ = .ok inserted after ∧
      Appended mapper records messages inserted after := by
  have done := inserts_done stored messages calm
  rcases file_append_ofPayload undoes records live sound with ⟨more, file, payloads⟩
  refine ⟨_, _, done, ?_, ?_, ?_, _, Function.update_self .., ?_⟩
  · exact all_accepted _
  · rw [List.map_map]
    exact placedFrom_payloads _ messages
  · rw [← payloads]
    apply load_records
    rw [← file]
    exact Function.update_self ..
  · intro index message there offsetFits lengthFits
    rw [List.map_map] at there
    have placed : message.PlacedIn (Record.bodies records ++ messages.map (·.payload.serialize))
        ((Record.bodies records).length + index) := by
      apply placedFrom_placedIn
      · exact (congrArg (·[index]?) (List.map_id _)).symm.trans there
      · rwa [frames_append, List.length_append]
      · exact lengthFits
    have whole : Record.file records ++ frames sizeOfSize (messages.map (·.payload.serialize)) =
        frames sizeOfSize (Record.bodies records ++ messages.map (·.payload.serialize)) :=
      (frames_append ..).symm
    rcases placed with ⟨own, delimits⟩
    have header := delimits.readHeader
    rcases delimits with ⟨body, bodyThere, position, size⟩
    cases own.symm.trans bodyThere
    rw [whole]
    refine ⟨?_, size ▸ header⟩
    exact (Delimits.readAt ⟨_, bodyThere, position, size⟩).trans own

omit [Protobuf] in
/-- Two messages appended to a file of two records. -/
theorem two_appended_to_two_records :
    ∃ inserted after, (ofNames (ascii "q") (ascii "data")).inserts
        [{ payload := countingPayload }, { payload := countingPayload }] ⟨twoRecordsDisk, []⟩ =
          .ok inserted after ∧
      @Appended wireFormat (ofNames (ascii "q") (ascii "data")) twoRecords
        [{ payload := countingPayload }, { payload := countingPayload }] inserted after :=
  @inserts_appended wireFormat _ _ _ twoRecords wireFormat_undoes (Function.update_self ..)
    [{ payload := countingPayload }, { payload := countingPayload }] (by decide)
    (fun message member => by
      have payload : message.payload = countingPayload := by
        rcases List.mem_cons.mp member with rfl | last
        · rfl
        · exact congrArg Message.payload (List.mem_singleton.mp last)
      exact payload ▸ Payload.sound_of_ascii (by decide) (by decide))
    (undisturbed_nil _)

end Reading

/-! ## What is remembered -/

/-- Writing over one body of a file that begins with something else. -/
theorem overwrite_append_frames (content : Bytes) {bodies : List Bytes} {index : Nat}
    {old new : Bytes} (there : bodies[index]? = some old) (sameLength : new.length = old.length) :
    overwrite (content ++ frames sizeOfSize bodies) (bodyPosition content.length bodies index) new =
      content ++ frames sizeOfSize (bodies.set index new) := by
  have position : bodyPosition content.length bodies index =
      (content ++ (frames sizeOfSize (bodies.take index) ++
        leBytes sizeOfSize old.length)).length := by
    rw [bodyPosition, List.length_append, List.length_append, length_leBytes, Nat.add_assoc]
  have around : content ++ frames sizeOfSize bodies =
      content ++ (frames sizeOfSize (bodies.take index) ++ leBytes sizeOfSize old.length) ++ old ++
        frames sizeOfSize (bodies.drop (index + 1)) := by
    conv_lhs => rw [take_cons_drop there]
    rw [frames_split]
    simp only [List.append_assoc]
  rw [around, position, overwrite_of_append _ _ _ _ sameLength, set_eq_take_cons_drop there,
    frames_split, ← sameLength]
  simp only [List.append_assoc]

/-- A message remembers the position and the size of the body at an index, and
removing it later, when the file has bodies of the same sizes, writes over that
body or, if the mark changes the size, over nothing. -/
structure Remembers (mapper : MessageMapper) (content : Bytes) (bodies : List Bytes) (index : Nat)
    (body : Bytes) (kept : Message) : Prop where
  offset : kept.offset = bodyPosition content.length bodies index
  length : kept.length = body.length
  strikes : ∀ (others : List Bytes) (world : World),
    others.map List.length = bodies.map List.length →
    world.disk mapper.datafile = some (content ++ frames sizeOfSize others) →
    Undisturbed 1 world.script →
    mapper.remove kept world =
      if (kept.payload.setValid invalidMark).serialize.length = body.length then
        .ok true ⟨Function.update world.disk mapper.datafile (some (content ++ frames sizeOfSize
          (others.set index (kept.payload.setValid invalidMark).serialize))), world.script.drop 1⟩
      else .ok false world

/-- What a message remembers is enough to remove it. -/
theorem remembers_of_place {mapper : MessageMapper} {content body : Bytes} {bodies : List Bytes}
    {index : Nat} {kept : Message} (there : bodies[index]? = some body)
    (offset : kept.offset = bodyPosition content.length bodies index)
    (length : kept.length = body.length) : Remembers mapper content bodies index body kept := by
  refine ⟨offset, length, ?_⟩
  intro others world sameLengths stored calm
  by_cases passes : (kept.payload.setValid invalidMark).serialize.length = body.length
  · have otherThere : ∃ other, others[index]? = some other ∧ other.length = body.length := by
      have lengths := congrArg (·[index]?) sameLengths
      simp only [List.getElem?_map, there, Option.map_some] at lengths
      exact Option.map_eq_some_iff.mp lengths
    rcases otherThere with ⟨other, otherThere, size⟩
    have samePosition : bodyPosition content.length bodies index =
        bodyPosition content.length others index := by
      have before : (frames sizeOfSize (bodies.take index)).length =
          (frames sizeOfSize (others.take index)).length := by
        apply length_frames_congr
        rw [List.map_take, List.map_take, sameLengths]
      rw [bodyPosition, bodyPosition, before]
    have written := remove_done stored kept (passes.trans length.symm) calm
    rw [offset, samePosition, overwrite_append_frames content otherThere (passes.trans size.symm)]
      at written
    rw [if_pos passes]
    exact written
  · rw [if_neg passes, remove, if_pos (by rwa [length])]
    rfl

/-- Every message of a sequence of insertions remembers its own place. -/
def AllRemember (mapper : MessageMapper) (content : Bytes) (messages : List Message)
    (inserted : List (Bool × Message)) : Prop :=
  ∀ index message, messages[index]? = some message → ∃ kept, inserted[index]? = some (true, kept) ∧
    kept.payload = message.payload ∧
    Remembers mapper content (messages.map (·.payload.serialize)) index message.payload.serialize
      kept

/-- The fifth of five messages of 2^30 bytes each, put into an empty file, does
not remember its place. -/
theorem fifth_forgets (mapper : MessageMapper) {message : Message}
    (large : 2 ^ 30 ≤ message.payload.serialize.length) :
    ¬ AllRemember mapper [] (List.replicate 5 message)
      ((placedFrom 0 (List.replicate 5 message)).map fun message => (true, message)) := by
  intro remember
  rcases remember 4 message (List.getElem?_replicate_of_lt (by decide)) with
    ⟨kept, keptThere, _, place⟩
  rw [List.getElem?_map, getElem?_placedFrom, List.getElem?_replicate_of_lt (by decide)]
    at keptThere
  cases keptThere
  have wrapped : bodyPosition 0 ((List.replicate 5 message).map (·.payload.serialize)) 4 %
      uint32Range = bodyPosition 0 ((List.replicate 5 message).map (·.payload.serialize)) 4 :=
    place.offset
  have position : uint32Range ≤
      bodyPosition 0 ((List.replicate 5 message).map (·.payload.serialize)) 4 := by
    rw [bodyPosition, length_frames, List.map_replicate, List.take_replicate, List.map_replicate,
      List.map_replicate, List.sum_replicate_nat]
    change 2 ^ 32 ≤ 0 + 4 * (8 + message.payload.serialize.length) + 8
    omega
  have bounded := Nat.mod_lt (bodyPosition 0 ((List.replicate 5 message).map
    (·.payload.serialize)) 4) (by decide : 0 < uint32Range)
  omega

/-- A message with a body of 2^30 bytes. -/
def hugeMessage : Message :=
  { payload := { body := List.replicate (2 ^ 30) 97, valid := validMark } }

/-- The places of five huge messages in one file are not all remembered. -/
theorem inserts_forget :
    ¬ ∀ (mapper : MessageMapper) (disk : Disk) (script : List Outcome) (content : Bytes)
        (messages : List Message) (inserted : List (Bool × Message)) (after : World),
      disk mapper.datafile = some content → Undisturbed (2 * messages.length) script →
      mapper.inserts messages ⟨disk, script⟩ = .ok inserted after →
      AllRemember mapper content messages inserted := by
  intro always
  have size : hugeMessage.payload.body.length = 2 ^ 30 := List.length_replicate
  have large : 2 ^ 30 ≤ hugeMessage.payload.serialize.length :=
    size.symm.trans_le hugeMessage.payload.body_length_le
  let mapper : MessageMapper := ⟨ascii "q", ascii "t"⟩
  have done := @inserts_done mapper (fun _ => some []) [] [] rfl (List.replicate 5 hugeMessage)
    (undisturbed_nil _)
  exact fifth_forgets mapper large
    (always mapper (fun _ => some []) [] [] _ _ _ rfl (undisturbed_nil _) done)

/-- The messages of insertions whose writes are all carried out remember their
places exactly if every position and every size is below 2^32. -/
theorem inserts_allRemember_iff {mapper : MessageMapper} {disk : Disk} {script : List Outcome}
    {content : Bytes} {messages : List Message} {inserted : List (Bool × Message)} {after : World}
    (stored : disk mapper.datafile = some content)
    (calm : Undisturbed (2 * messages.length) script)
    (completed : mapper.inserts messages ⟨disk, script⟩ = .ok inserted after) :
    AllRemember mapper content messages inserted ↔
      ∀ index message, messages[index]? = some message →
        bodyPosition content.length (messages.map (·.payload.serialize)) index < uint32Range ∧
        message.payload.serialize.length < uint32Range := by
  have done := inserts_done stored messages calm
  cases completed.symm.trans done
  have places : ∀ index message, messages[index]? = some message →
      ((placedFrom content.length messages).map fun message => (true, message))[index]? =
        some (true, placedAt (content.length + (frames sizeOfSize
          ((messages.map (·.payload.serialize)).take index)).length) message) := by
    intro index message there
    rw [List.getElem?_map, getElem?_placedFrom, there]
    rfl
  constructor
  · intro remember index message there
    rcases remember index message there with ⟨kept, keptThere, _, place⟩
    cases keptThere.symm.trans (places index message there)
    have wrapped : ∀ number : Nat, number % uint32Range = number → number < uint32Range := by
      intro number same
      rw [← same]
      exact Nat.mod_lt _ (by decide)
    exact ⟨wrapped _ place.offset, wrapped _ place.length⟩
  · intro fits index message there
    refine ⟨_, places index message there, rfl, ?_⟩
    have bodyThere : (messages.map (·.payload.serialize))[index]? =
        some message.payload.serialize := by
      rw [List.getElem?_map, there]
      rfl
    exact remembers_of_place bodyThere (Nat.mod_eq_of_lt (fits index message there).1)
      (Nat.mod_eq_of_lt (fits index message there).2)

/-- Two small messages remember theirs. -/
theorem two_small_remember :
    AllRemember ⟨ascii "q", ascii "t"⟩ [] (List.replicate 2 { payload := countingPayload })
      ((placedFrom 0 (List.replicate 2 { payload := countingPayload })).map
        fun message => (true, message)) := by
  apply (@inserts_allRemember_iff ⟨ascii "q", ascii "t"⟩ (fun _ => some []) [] []
    (List.replicate 2 { payload := countingPayload }) _ _ rfl (undisturbed_nil _)
    (@inserts_done ⟨ascii "q", ascii "t"⟩ (fun _ => some []) [] [] rfl
      (List.replicate 2 { payload := countingPayload }) (undisturbed_nil _))).mpr
  intro index message there
  rcases List.getElem?_eq_some_iff.mp there with ⟨within, same⟩
  rw [List.getElem_replicate] at same
  subst same
  rw [List.length_replicate] at within
  have either : index = 0 ∨ index = 1 := by omega
  rcases either with rfl | rfl <;> decide

end MessageMapper

end ProtobufMq
