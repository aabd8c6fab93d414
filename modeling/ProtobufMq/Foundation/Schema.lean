import ProtobufMq.Foundation.Dictionary
import ProtobufMq.Foundation.Wire

namespace ProtobufMq
namespace Foundation

/-!
# Messages with a schema

Code that is generated from a schema treats every field of a message alike: it
writes the field unless it has its default value, and when it reads, it stores
what comes under the number of the field.  What differs is the kind of the
field.  So a kind says how a value is written and how it is read over the value
that is there; a slot puts a kind at a number and at a place of the message; and
a schema is the list of the slots.

Reading what was written gives the message back if all its texts are accepted,
and nothing otherwise.  This needs that what is read from an encoded list of
fields is that list, which is a hypothesis about the reader.  That a message
which was read has none but accepted texts needs no such thing.
-/

/-! ## Fields that fit -/

/-- A value that can travel: numbers have 64 bits. -/
def FieldValue.InRange : FieldValue → Prop
  | .number value => value < 2 ^ 64
  | .delimited _ => True

/-- A field that can travel: field numbers are positive and have 29 bits. -/
def Field.InRange (field : Field) : Prop :=
  0 < field.tag ∧ field.tag < 2 ^ 29 ∧ field.value.InRange

/-- The largest size of a message and of what it contains. -/
def sizeLimit : Nat := 2 ^ 31

/-- A reader gives back the fields that were written. -/
def ReadsBack (decode : Bytes → Option (List Field)) : Prop :=
  ∀ fields : List Field, (∀ field ∈ fields, field.InRange) →
    (encodeFields fields).length < sizeLimit → decode (encodeFields fields) = some fields

/-- A reader cuts the fields out of the bytes it is given. -/
def Cuts (decode : Bytes → Option (List Field)) : Prop :=
  ∀ data fields, decode data = some fields → ∀ field ∈ fields, ∀ content,
    field.value = .delimited content → content.length ≤ data.length

theorem encodeFields_append (first second : List Field) :
    encodeFields (first ++ second) = encodeFields first ++ encodeFields second :=
  List.flatMap_append

/-- What a field contains is no longer than the message. -/
theorem length_delimited_le {fields : List Field} {field : Field} {data : Bytes}
    (member : field ∈ fields) (contains : field.value = .delimited data) :
    data.length ≤ (encodeFields fields).length := by
  rcases List.append_of_mem member with ⟨before, after, rfl⟩
  rw [encodeFields_append, List.length_append, encodeFields, encodeFields, List.flatMap_cons,
    List.length_append, Field.encode, contains]
  simp only [List.length_append]
  omega

/-- A number has as many digits as it needs. -/
theorem length_varintDigits_le {digits fuel number : Nat} (small : number < 128 ^ (digits + 1)) :
    (varintDigits fuel number).length ≤ digits + 1 := by
  induction digits generalizing fuel number with
  | zero =>
      cases fuel with
      | zero => exact Nat.zero_le _
      | succ fuel =>
          rw [varintDigits, if_pos (by simpa using small)]
          exact Nat.le_refl 1
  | succ digits inductionHypothesis =>
      cases fuel with
      | zero => exact Nat.zero_le _
      | succ fuel =>
          rw [varintDigits]
          by_cases one : number < 128
          · rw [if_pos one]
            exact Nat.le_add_left 1 _
          · have rest : number / 128 < 128 ^ (digits + 1) := by
              rw [Nat.div_lt_iff_lt_mul (by decide), ← Nat.pow_succ]
              exact small
            rw [if_neg one, List.length_cons]
            exact Nat.succ_le_succ (inductionHypothesis rest)

/-- A field with content needs a byte for its number and four for the length. -/
theorem length_encode_delimited_le {number : Nat} {data : Bytes} (low : number < 16)
    (short : data.length < 128 ^ 4) :
    (Field.encode ⟨number, .delimited data⟩).length ≤ data.length + 5 := by
  have key : (varint (number * 8 + 2)).length ≤ 1 :=
    @length_varintDigits_le 0 _ _ (by omega)
  have length : (varint data.length).length ≤ 4 := @length_varintDigits_le 3 _ _ short
  simp only [Field.encode, List.length_append]
  omega

/-! ## Kinds -/

/-- A kind of field: its default value, how a value is written, and how a value
is read over the one that is there.  `Fits` says that the type of the field can
hold a value, `valid` that a reader accepts it. -/
structure Kind (β : Type) where
  absent : β
  write : β → List FieldValue
  read : β → FieldValue → Option β
  Fits : β → Prop
  valid : β → Bool

namespace Kind

variable {β : Type}

/-- What a kind writes is read back, exactly if it is accepted, and nothing
else comes of reading. -/
structure Lawful (kind : Kind β) : Prop where
  absent_valid : kind.valid kind.absent = true
  read_valid : ∀ stored value next, kind.valid stored = true →
    kind.read stored value = some next → kind.valid next = true
  inRange : ∀ value, kind.Fits value → ∀ written ∈ kind.write value, written.InRange
  read_write : ∀ value, kind.Fits value →
    (∀ data, .delimited data ∈ kind.write value → data.length < sizeLimit) →
    (kind.write value).foldlM kind.read kind.absent =
      if kind.valid value then some value else none

/-- A text, written unless it is empty. -/
def text (accepts : Bytes → Bool) : Kind Bytes where
  absent := []
  write value := if value = [] then [] else [.delimited value]
  read stored
    | .delimited data => if accepts data then some data else none
    | .number _ => some stored
  Fits _ := True
  valid value := value = [] || accepts value

/-- A text that is written even if it is empty. -/
def entryText (accepts : Bytes → Bool) : Kind Bytes :=
  { text accepts with
    write := fun value => [.delimited value]
    valid := accepts }

/-- A truth value, written if it is true. -/
def flag : Kind Bool where
  absent := false
  write value := if value then [.number 1] else []
  read stored
    | .number number => some (number ≠ 0)
    | .delimited _ => some stored
  Fits _ := True
  valid _ := true

/-- A value of an enumeration, written unless its number is zero. -/
def enumeration (absent : β) (code : β → Nat) (ofCode : Nat → β) : Kind β where
  absent := absent
  write value := if code value = 0 then [] else [.number (code value)]
  read stored
    | .number number => some (ofCode number)
    | .delimited _ => some stored
  Fits value := code value < 2 ^ 64 ∧ ofCode (code value) = value
  valid _ := true

section

variable {accepts : Bytes → Bool}

theorem text_write (value : Bytes) :
    (text accepts).write value = if value = [] then [] else [.delimited value] := rfl

theorem text_read (stored data : Bytes) :
    (text accepts).read stored (.delimited data) = if accepts data then some data else none := rfl

theorem text_valid_of_accepts {value : Bytes} (accepted : accepts value = true) :
    (text accepts).valid value = true := by
  change (decide (value = []) || accepts value) = true
  rw [accepted, Bool.or_true]

/-- A text that was read is the one that was stored, or it is accepted. -/
theorem text_read_cases {stored next : Bytes} {value : FieldValue}
    (read : (text accepts).read stored value = some next) :
    next = stored ∨ accepts next = true := by
  cases value with
  | number number => exact Or.inl (Option.some.inj read).symm
  | delimited data =>
      rw [text_read] at read
      cases accepted : accepts data with
      | false =>
          rw [accepted] at read
          cases read
      | true =>
          rw [accepted] at read
          cases read
          exact Or.inr accepted

theorem text_lawful : (text accepts).Lawful where
  absent_valid := rfl
  read_valid stored value next kept read := by
    rcases text_read_cases read with same | accepted
    · exact same ▸ kept
    · exact text_valid_of_accepts accepted
  inRange value _ written member := by
    rw [text_write] at member
    by_cases empty : value = []
    · rw [if_pos empty] at member
      cases member
    · rw [if_neg empty, List.mem_singleton] at member
      exact member ▸ trivial
  read_write value _ _ := by
    rw [text_write]
    by_cases empty : value = []
    · rw [if_pos empty, empty]
      rfl
    · rw [if_neg empty, List.foldlM_cons, text_read]
      change _ = if (decide (value = []) || accepts value) = true then _ else _
      rw [decide_eq_false empty, Bool.false_or]
      cases accepts value <;> rfl

theorem entryText_lawful (nothing : accepts [] = true) : (entryText accepts).Lawful where
  absent_valid := nothing
  read_valid stored value next kept read := by
    rcases text_read_cases read with same | accepted
    · exact same ▸ kept
    · exact accepted
  inRange value _ written member := List.mem_singleton.mp member ▸ trivial
  read_write value _ _ := by
    change ([FieldValue.delimited value]).foldlM (text accepts).read [] =
      if accepts value = true then some value else none
    rw [List.foldlM_cons, text_read]
    cases accepts value <;> rfl

@[simp] theorem flag_absent : flag.absent = false := rfl

@[simp] theorem flag_lawful : flag.Lawful where
  absent_valid := rfl
  read_valid _ _ _ _ _ := rfl
  inRange value _ written member := by
    cases value with
    | false => cases member
    | true => exact List.mem_singleton.mp member ▸ (by decide : 1 < 2 ^ 64)
  read_write value _ _ := by
    cases value <;> rfl

theorem enumeration_write {absent : β} {code : β → Nat} {ofCode : Nat → β} (value : β) :
    (enumeration absent code ofCode).write value =
      if code value = 0 then [] else [.number (code value)] := rfl

theorem enumeration_lawful {absent : β} {code : β → Nat} {ofCode : Nat → β}
    (zero : ∀ value, code value = 0 → value = absent) :
    (enumeration absent code ofCode).Lawful where
  absent_valid := rfl
  read_valid _ _ _ _ _ := rfl
  inRange value fits written member := by
    rw [enumeration_write] at member
    by_cases none : code value = 0
    · rw [if_pos none] at member
      cases member
    · rw [if_neg none, List.mem_singleton] at member
      exact member ▸ fits.1
  read_write value fits _ := by
    rw [enumeration_write]
    by_cases none : code value = 0
    · rw [if_pos none, zero value none]
      rfl
    · rw [if_neg none]
      exact congrArg some fits.2

end

end Kind

/-! ## Schemas -/

/-- A field of messages of a type: its number, its kind, and its place. -/
structure Slot (μ : Type) where
  number : Nat
  {content : Type}
  kind : Kind content
  get : μ → content
  set : μ → content → μ

/-- Storing in either of two slots leaves the other as it is. -/
def Slot.Apart {μ : Type} (first second : Slot μ) : Prop :=
  (∀ message value, first.get (second.set message value) = first.get message) ∧
    ∀ message value, second.get (first.set message value) = second.get message

instance Slot.apart_symm {μ : Type} : Std.Symm (@Slot.Apart μ) :=
  ⟨fun _ _ apart => ⟨apart.2, apart.1⟩⟩

/-- A slot is a place of its own: it is empty in the message without any fields, and
has what was stored in it. -/
@[mk_iff] structure Slot.Serves {μ : Type} (empty : μ) (slot : Slot μ) : Prop where
  kind : slot.kind.Lawful
  inRange : 0 < slot.number ∧ slot.number < 2 ^ 29
  get_empty : slot.get empty = slot.kind.absent
  get_set : ∀ message value, slot.get (slot.set message value) = value

/-- The fields of messages of a type, and the message without any. -/
structure Schema (μ : Type) where
  empty : μ
  slots : List (Slot μ)

namespace Schema

variable {μ : Type}

/-- The fields that are written for a message. -/
def fields (schema : Schema μ) (message : μ) : List Field :=
  schema.slots.flatMap fun slot =>
    (slot.kind.write (slot.get message)).map fun value => ⟨slot.number, value⟩

/-- The bytes of a message. -/
def serialize (schema : Schema μ) (message : μ) : Bytes :=
  encodeFields (schema.fields message)

/-- Store a field.  One whose number the schema does not know is left aside. -/
def readField (schema : Schema μ) (message : μ) (field : Field) : Option μ :=
  match schema.slots.find? fun slot => slot.number = field.tag with
  | none => some message
  | some slot => (slot.kind.read (slot.get message) field.value).map (slot.set message)

/-- Read fields over a message. -/
def merge (schema : Schema μ) (decode : Bytes → Option (List Field)) (message : μ) (data : Bytes) :
    Option μ :=
  (decode data).bind fun fields => fields.foldlM schema.readField message

/-- Read a message. -/
def parse (schema : Schema μ) (decode : Bytes → Option (List Field)) (data : Bytes) : Option μ :=
  schema.merge decode schema.empty data

/-- Every field of the message fits its type. -/
def Fits (schema : Schema μ) (message : μ) : Prop :=
  ∀ slot ∈ schema.slots, slot.kind.Fits (slot.get message)

/-- Every field of the message is accepted. -/
def valid (schema : Schema μ) (message : μ) : Bool :=
  schema.slots.all fun slot => slot.kind.valid (slot.get message)

/-- The slots are places of their own, and together they are the message. -/
structure Lawful (schema : Schema μ) : Prop where
  kinds : ∀ slot ∈ schema.slots, slot.kind.Lawful
  inRange : ∀ slot ∈ schema.slots, 0 < slot.number ∧ slot.number < 2 ^ 29
  numbers : (schema.slots.map Slot.number).Nodup
  get_empty : ∀ slot ∈ schema.slots, slot.get schema.empty = slot.kind.absent
  get_set : ∀ slot ∈ schema.slots, ∀ message value, slot.get (slot.set message value) = value
  apart : schema.slots.Pairwise Slot.Apart
  ext : ∀ first second, (∀ slot ∈ schema.slots, slot.get first = slot.get second) → first = second

namespace Lawful

variable {schema : Schema μ}

/-- A schema is lawful if its slots, one by one, serve, no two of them meet, and
nothing is in a message besides. -/
theorem of_slots (serves : ∀ slot ∈ schema.slots, slot.Serves schema.empty)
    (apart : schema.slots.Pairwise fun first second =>
      first.number ≠ second.number ∧ first.Apart second)
    (ext : ∀ first second, (∀ slot ∈ schema.slots, slot.get first = slot.get second) →
      first = second) : schema.Lawful where
  kinds slot member := (serves slot member).kind
  inRange slot member := (serves slot member).inRange
  numbers := List.pairwise_map.mpr (apart.imp And.left)
  get_empty slot member := (serves slot member).get_empty
  get_set slot member := (serves slot member).get_set
  apart := apart.imp And.right
  ext := ext

/-- Storing in one slot leaves the others as they are. -/
theorem get_set_ne (lawful : schema.Lawful) {slot other : Slot μ} (member : slot ∈ schema.slots)
    (otherMember : other ∈ schema.slots) (distinct : other.number ≠ slot.number) (message : μ)
    (value : slot.content) : other.get (slot.set message value) = other.get message := by
  have differ : other ≠ slot := fun same => distinct (congrArg Slot.number same)
  exact (lawful.apart.forall otherMember member differ).1 message value

/-- A field under the number of a slot is read by that slot. -/
theorem readField_eq (lawful : schema.Lawful) {slot : Slot μ} (member : slot ∈ schema.slots)
    (message : μ) (value : FieldValue) :
    schema.readField message ⟨slot.number, value⟩ =
      (slot.kind.read (slot.get message) value).map (slot.set message) := by
  have found : (schema.slots.find? fun other => other.number = slot.number) = some slot := by
    cases result : schema.slots.find? fun other => other.number = slot.number with
    | none =>
        have missing := List.find?_eq_none.mp result slot member
        simp at missing
    | some other =>
        have there := List.mem_of_find?_eq_some result
        have number := List.find?_some result
        rw [decide_eq_true_eq] at number
        exact congrArg some (List.inj_on_of_nodup_map lawful.numbers there member number)
  rw [readField, found]

/-- Reading what one slot wrote changes that slot only. -/
theorem foldlM_slot (lawful : schema.Lawful) {slot : Slot μ} (member : slot ∈ schema.slots)
    (values : List FieldValue) (message : μ) :
    match values.foldlM slot.kind.read (slot.get message) with
    | none => (values.map fun value => ⟨slot.number, value⟩).foldlM schema.readField message = none
    | some result => ∃ next,
        (values.map fun value => ⟨slot.number, value⟩).foldlM schema.readField message = some next ∧
          slot.get next = result ∧
          ∀ other ∈ schema.slots, other.number ≠ slot.number → other.get next = other.get message := by
  induction values generalizing message with
  | nil => exact ⟨message, rfl, rfl, fun _ _ _ => rfl⟩
  | cons value rest inductionHypothesis =>
      rw [List.map_cons, List.foldlM_cons, List.foldlM_cons, lawful.readField_eq member]
      cases read : slot.kind.read (slot.get message) value with
      | none => rfl
      | some stored =>
          have onward := inductionHypothesis (slot.set message stored)
          rw [lawful.get_set slot member] at onward
          simp only [Option.map_some, Option.bind_eq_bind, Option.bind_some]
          cases later : rest.foldlM slot.kind.read stored with
          | none =>
              rw [later] at onward
              exact onward
          | some result =>
              rw [later] at onward
              rcases onward with ⟨next, done, here, elsewhere⟩
              refine ⟨next, done, here, fun other otherMember distinct => ?_⟩
              rw [elsewhere other otherMember distinct,
                lawful.get_set_ne member otherMember distinct]

/-- Reading what some slots wrote, over a message without them. -/
theorem foldlM_slots (lawful : schema.Lawful) (message : μ) (fits : schema.Fits message)
    (small : ∀ slot ∈ schema.slots, ∀ data,
      .delimited data ∈ slot.kind.write (slot.get message) → data.length < sizeLimit)
    {slots : List (Slot μ)} (members : ∀ slot ∈ slots, slot ∈ schema.slots)
    (distinct : (slots.map Slot.number).Nodup) (target : μ)
    (blank : ∀ slot ∈ slots, slot.get target = slot.kind.absent) :
    let written := slots.flatMap fun slot =>
      (slot.kind.write (slot.get message)).map fun value => (⟨slot.number, value⟩ : Field)
    if slots.all fun slot => slot.kind.valid (slot.get message) then
      ∃ next, written.foldlM schema.readField target = some next ∧
        (∀ slot ∈ slots, slot.get next = slot.get message) ∧
        ∀ other ∈ schema.slots, other.number ∉ slots.map Slot.number →
          other.get next = other.get target
    else written.foldlM schema.readField target = none := by
  induction slots generalizing target with
  | nil => exact ⟨target, rfl, nofun, fun _ _ _ => rfl⟩
  | cons slot rest inductionHypothesis =>
      rw [List.forall_mem_cons] at members blank
      rw [List.map_cons, List.nodup_cons] at distinct
      have stored := lawful.foldlM_slot members.1 (slot.kind.write (slot.get message)) target
      rw [blank.1, (lawful.kinds slot members.1).read_write _ (fits slot members.1)
        (small slot members.1)] at stored
      simp only [List.flatMap_cons, List.foldlM_append, List.all_cons]
      cases accepted : slot.kind.valid (slot.get message) with
      | false =>
          simp only [accepted, Bool.false_eq_true, if_false] at stored
          simp only [stored, Bool.false_and, Bool.false_eq_true, if_false]
          rfl
      | true =>
          simp only [accepted, if_true] at stored
          rcases stored with ⟨middle, done, here, elsewhere⟩
          have apart : ∀ other ∈ rest, other.number ≠ slot.number := fun other member same =>
            distinct.1 (same ▸ List.mem_map_of_mem member)
          have onward := inductionHypothesis members.2 distinct.2 middle fun other member => by
            rw [elsewhere other (members.2 other member) (apart other member)]
            exact blank.2 other member
          simp only [done, Bool.true_and, Option.bind_eq_bind, Option.bind_some]
          cases later : rest.all fun slot => slot.kind.valid (slot.get message) with
          | false =>
              simp only [later, Bool.false_eq_true, if_false] at onward ⊢
              exact onward
          | true =>
              simp only [later, if_true] at onward ⊢
              rcases onward with ⟨next, finished, there, beyond⟩
              refine ⟨next, finished, ?_, fun other member absent => ?_⟩
              · rw [List.forall_mem_cons]
                exact ⟨(beyond slot members.1 distinct.1).trans here, there⟩
              · rw [List.map_cons, List.mem_cons, not_or] at absent
                rw [beyond other member absent.2, elsewhere other member absent.1]

/-- Storing a field keeps a message accepted. -/
theorem readField_valid (lawful : schema.Lawful) {message next : μ} {field : Field}
    (kept : schema.valid message = true) (read : schema.readField message field = some next) :
    schema.valid next = true := by
  unfold readField at read
  cases found : schema.slots.find? fun slot => slot.number = field.tag with
  | none =>
      rw [found] at read
      exact Option.some.inj read ▸ kept
  | some slot =>
      rw [found] at read
      have member := List.mem_of_find?_eq_some found
      rcases Option.map_eq_some_iff.mp read with ⟨stored, stores, rfl⟩
      have before := List.all_eq_true.mp kept
      have accepted := (lawful.kinds slot member).read_valid _ _ _ (before slot member) stores
      apply List.all_eq_true.mpr
      intro other otherMember
      by_cases same : other.number = slot.number
      · have equal := List.inj_on_of_nodup_map lawful.numbers otherMember member same
        rw [equal, lawful.get_set slot member]
        exact accepted
      · rw [lawful.get_set_ne member otherMember same]
        exact before other otherMember

theorem foldlM_valid (lawful : schema.Lawful) {fields : List Field} {message next : μ}
    (kept : schema.valid message = true)
    (read : fields.foldlM schema.readField message = some next) : schema.valid next = true := by
  induction fields generalizing message with
  | nil => exact Option.some.inj read ▸ kept
  | cons field rest inductionHypothesis =>
      rw [List.foldlM_cons] at read
      rcases Option.bind_eq_some_iff.mp read with ⟨middle, first, later⟩
      exact inductionHypothesis (lawful.readField_valid kept first) later

theorem empty_valid (lawful : schema.Lawful) : schema.valid schema.empty = true := by
  apply List.all_eq_true.mpr
  intro slot member
  rw [lawful.get_empty slot member]
  exact (lawful.kinds slot member).absent_valid

theorem merge_valid (lawful : schema.Lawful) {decode : Bytes → Option (List Field)}
    {message next : μ} {data : Bytes} (kept : schema.valid message = true)
    (read : schema.merge decode message data = some next) : schema.valid next = true := by
  rcases Option.bind_eq_some_iff.mp read with ⟨fields, _, stored⟩
  exact lawful.foldlM_valid kept stored

/-- A message that was read is accepted. -/
theorem parse_valid (lawful : schema.Lawful) {decode : Bytes → Option (List Field)} {message : μ}
    {data : Bytes} (read : schema.parse decode data = some message) :
    schema.valid message = true :=
  lawful.merge_valid lawful.empty_valid read

/-- What the fields under a number keep holds of the slot with that number. -/
theorem foldlM_holds (lawful : schema.Lawful) {slot : Slot μ} (member : slot ∈ schema.slots)
    {holds : slot.content → Prop} {fields : List Field}
    (keeps : ∀ field ∈ fields, ∀ stored next, holds stored →
      slot.kind.read stored field.value = some next → holds next)
    {message next : μ} (held : holds (slot.get message))
    (read : fields.foldlM schema.readField message = some next) : holds (slot.get next) := by
  induction fields generalizing message with
  | nil => exact Option.some.inj read ▸ held
  | cons field rest inductionHypothesis =>
      rw [List.foldlM_cons] at read
      rw [List.forall_mem_cons] at keeps
      rcases Option.bind_eq_some_iff.mp read with ⟨middle, first, later⟩
      refine inductionHypothesis keeps.2 ?_ later
      unfold readField at first
      cases found : schema.slots.find? fun other => other.number = field.tag with
      | none =>
          rw [found] at first
          exact Option.some.inj first ▸ held
      | some other =>
          rw [found] at first
          have otherMember := List.mem_of_find?_eq_some found
          rcases Option.map_eq_some_iff.mp first with ⟨stored, stores, rfl⟩
          by_cases same : slot.number = other.number
          · cases List.inj_on_of_nodup_map lawful.numbers member otherMember same
            rw [lawful.get_set slot member]
            exact keeps.1 _ _ held stores
          · rw [lawful.get_set_ne otherMember member same]
            exact held

/-- A text that was read is no longer than the bytes it was read from, if the
reader cuts the fields out of these. -/
theorem parse_text_length (lawful : schema.Lawful) {decode : Bytes → Option (List Field)}
    (cuts : Cuts decode) {accepts : Bytes → Bool} {number : Nat} {get : μ → Bytes}
    {set : μ → Bytes → μ} (member : ⟨number, Kind.text accepts, get, set⟩ ∈ schema.slots)
    {message : μ} {data : Bytes} (read : schema.parse decode data = some message) :
    (get message).length ≤ data.length := by
  rcases Option.bind_eq_some_iff.mp read with ⟨fields, decoded, stored⟩
  have blank : get schema.empty = [] := lawful.get_empty _ member
  refine @foldlM_holds _ _ lawful _ member (fun text : Bytes => text.length ≤ data.length) fields ?_
    schema.empty message ?_ stored
  · intro field there before next held reads
    cases value : field.value with
    | number number =>
        rw [value] at reads
        exact Option.some.inj reads ▸ held
    | delimited content =>
        rw [value] at reads
        have small := cuts data fields decoded field there content value
        change (if accepts content then some content else none) = some next at reads
        cases accepted : accepts content with
        | false =>
            rw [accepted] at reads
            cases reads
        | true =>
            rw [accepted] at reads
            exact Option.some.inj reads ▸ small
  · change (get schema.empty).length ≤ data.length
    rw [blank]
    exact Nat.zero_le _

/-- The contents of the fields of a message are within the size of the message. -/
theorem small_of_size {message : μ} {size : Nat} (limit : (schema.serialize message).length < size)
    {slot : Slot μ} (member : slot ∈ schema.slots) {data : Bytes}
    (written : .delimited data ∈ slot.kind.write (slot.get message)) : data.length < size := by
  have field : (⟨slot.number, .delimited data⟩ : Field) ∈ schema.fields message :=
    List.mem_flatMap.mpr ⟨slot, member, List.mem_map.mpr ⟨_, written, rfl⟩⟩
  exact Nat.lt_of_le_of_lt (length_delimited_le field rfl) limit

theorem fields_inRange (lawful : schema.Lawful) {message : μ} (fits : schema.Fits message) :
    ∀ field ∈ schema.fields message, field.InRange := by
  intro field member
  rcases List.mem_flatMap.mp member with ⟨slot, there, written⟩
  rcases List.mem_map.mp written with ⟨value, known, rfl⟩
  have number := lawful.inRange slot there
  exact ⟨number.1, number.2, (lawful.kinds slot there).inRange _ (fits slot there) value known⟩

/-- Reading a written message gives it back if it is accepted, and nothing otherwise. -/
theorem parse_serialize (lawful : schema.Lawful) {decode : Bytes → Option (List Field)}
    (readsBack : ReadsBack decode) {message : μ} (fits : schema.Fits message)
    (limit : (schema.serialize message).length < sizeLimit) :
    schema.parse decode (schema.serialize message) =
      if schema.valid message then some message else none := by
  have decoded := readsBack _ (lawful.fields_inRange fits) limit
  have read := lawful.foldlM_slots message fits
    (fun slot member data written => small_of_size limit member written)
    (fun _ member => member) lawful.numbers schema.empty lawful.get_empty
  rw [parse, merge, serialize, decoded, Option.bind_some]
  change if schema.valid message = true then _ else _ at read
  cases accepted : schema.valid message with
  | false =>
      simp only [accepted, Bool.false_eq_true, if_false] at read ⊢
      exact read
  | true =>
      simp only [accepted, if_true] at read ⊢
      rcases read with ⟨next, done, same, _⟩
      rw [lawful.ext next message same] at done
      exact done

end Lawful

end Schema

/-! ## Kinds that contain messages -/

namespace Kind

/-- A message inside a message, written unless it is absent, and read over the
one that is there. -/
def submessage {ν : Type} (schema : Schema ν) (decode : Bytes → Option (List Field)) :
    Kind (Option ν) where
  absent := none
  write
    | none => []
    | some message => [.delimited (schema.serialize message)]
  read stored
    | .delimited data => (schema.merge decode (stored.getD schema.empty) data).map some
    | .number _ => some stored
  Fits value := ∀ message, value = some message → schema.Fits message
  valid value := value.all schema.valid

theorem submessage_lawful {ν : Type} {schema : Schema ν} {decode : Bytes → Option (List Field)}
    (lawful : schema.Lawful) (readsBack : ReadsBack decode) :
    (submessage schema decode).Lawful where
  absent_valid := rfl
  read_valid stored value next kept read := by
    cases value with
    | number number => exact Option.some.inj read ▸ kept
    | delimited data =>
        rcases Option.map_eq_some_iff.mp read with ⟨message, merged, rfl⟩
        cases stored with
        | none => exact lawful.merge_valid lawful.empty_valid merged
        | some before => exact lawful.merge_valid kept merged
  inRange value _ written member := by
    cases value with
    | none => cases member
    | some message => exact List.mem_singleton.mp member ▸ trivial
  read_write value fits small := by
    cases value with
    | none => rfl
    | some message =>
        have limit : (schema.serialize message).length < sizeLimit :=
          small _ (List.mem_singleton_self _)
        have parsed := lawful.parse_serialize readsBack (fits message rfl) limit
        change ((schema.parse decode (schema.serialize message)).map some >>= fun next =>
          [].foldlM _ next) = if schema.valid message = true then some (some message) else none
        rw [parsed]
        cases schema.valid message <;> rfl

/-- The entry of a map as a message. -/
def entrySchema (accepts : Bytes → Bool) : Schema (Bytes × Bytes) where
  empty := ([], [])
  slots := [
    ⟨1, entryText accepts, Prod.fst, fun entry key => (key, entry.2)⟩,
    ⟨2, entryText accepts, Prod.snd, fun entry value => (entry.1, value)⟩]

/-- A map from texts to texts.  The format leaves the order of the entries open; here
they are written in the order in which they were put in. -/
def dictionary (accepts : Bytes → Bool) (decode : Bytes → Option (List Field)) :
    Kind (Dictionary Bytes Bytes) where
  absent := ∅
  write entries := entries.entries.reverse.map fun entry =>
    .delimited ((entrySchema accepts).serialize (entry.1, entry.2))
  read stored
    | .delimited data =>
        ((entrySchema accepts).parse decode data).map fun entry => stored.insert entry.1 entry.2
    | .number _ => some stored
  Fits _ := True
  valid entries := entries.entries.all fun entry => accepts entry.1 && accepts entry.2

section

variable {accepts : Bytes → Bool} {decode : Bytes → Option (List Field)}

theorem entrySchema_lawful (nothing : accepts [] = true) : (entrySchema accepts).Lawful where
  kinds := by
    simp only [entrySchema, List.forall_mem_cons, List.not_mem_nil, false_implies, implies_true,
      and_true]
    exact ⟨entryText_lawful nothing, entryText_lawful nothing⟩
  inRange := by simp [entrySchema]
  numbers := by simp [entrySchema]
  get_empty := by simp [entrySchema, entryText, text]
  get_set := by simp [entrySchema]
  apart := by simp [entrySchema, Slot.Apart]
  ext first second same := by
    simp only [entrySchema, List.forall_mem_cons] at same
    exact Prod.ext same.1 same.2.1

theorem entrySchema_valid (entry : Bytes × Bytes) :
    (entrySchema accepts).valid entry = (accepts entry.1 && accepts entry.2) := by
  simp [Schema.valid, entrySchema, entryText]

theorem dictionary_lawful (nothing : accepts [] = true) (readsBack : ReadsBack decode) :
    (dictionary accepts decode).Lawful where
  absent_valid := rfl
  read_valid stored value next kept read := by
    cases value with
    | number number => exact Option.some.inj read ▸ kept
    | delimited data =>
        rcases Option.map_eq_some_iff.mp read with ⟨entry, parsed, rfl⟩
        have accepted := (entrySchema_lawful nothing).parse_valid parsed
        rw [entrySchema_valid] at accepted
        have others := List.all_eq_true.mp kept
        apply List.all_eq_true.mpr
        intro other member
        rw [AList.entries_insert, List.mem_cons] at member
        rcases member with rfl | member
        · exact accepted
        · exact others other ((List.kerase_sublist _ _).mem member)
  inRange value _ written member := by
    rcases List.mem_map.mp member with ⟨entry, _, rfl⟩
    exact trivial
  read_write entries _ small := by
    induction entries using AList.insertRec with
    | H0 => rfl
    | IH key value entries absent inductionHypothesis =>
        have split : (dictionary accepts decode).write (entries.insert key value) =
            (dictionary accepts decode).write entries ++
              [.delimited ((entrySchema accepts).serialize (key, value))] := by
          change (entries.insert key value).entries.reverse.map _ = _
          rw [AList.entries_insert_of_notMem absent, List.reverse_cons, List.map_append]
          rfl
        rw [split] at small ⊢
        have earlier := inductionHypothesis trivial fun data member =>
          small data (List.mem_append_left _ member)
        have limit := small _ (List.mem_append_right _ (List.mem_singleton_self _))
        have fits : (entrySchema accepts).Fits (key, value) := by
          simp [Schema.Fits, entrySchema, entryText, text]
        have parsed := (entrySchema_lawful nothing).parse_serialize readsBack fits limit
        have whole : (dictionary accepts decode).valid (entries.insert key value) =
            ((accepts key && accepts value) && (dictionary accepts decode).valid entries) := by
          change (entries.insert key value).entries.all
            (fun entry => accepts entry.1 && accepts entry.2) = _
          rw [AList.entries_insert_of_notMem absent, List.all_cons]
          rfl
        rw [entrySchema_valid] at parsed
        rw [List.foldlM_append, earlier, whole]
        cases (dictionary accepts decode).valid entries with
        | false => cases accepts key <;> cases accepts value <;> rfl
        | true =>
            change (((entrySchema accepts).parse decode _).map fun entry =>
              entries.insert entry.1 entry.2) >>= (fun next => [].foldlM _ next) = _
            rw [parsed]
            cases accepts key <;> cases accepts value <;> rfl

end

end Kind

/-! ## A reader -/

/-- The fields of an input that consists of nothing else. -/
def decodeWhole (data : Bytes) : Option (List Field) :=
  if (decodeFields data).1 then some (decodeFields data).2 else none

theorem decodeWhole_readsBack : ReadsBack decodeWhole := by
  intro fields _ _
  rw [decodeWhole, decodeFields_encodeFields]
  rfl

theorem length_readVarint {input : Bytes} {read : Nat × Bytes}
    (found : readVarint input = some read) : read.2.length ≤ input.length := by
  induction input generalizing read with
  | nil => cases found
  | cons byte rest inductionHypothesis =>
      rw [readVarint] at found
      by_cases last : byte.toNat < 128
      · rw [if_pos last] at found
        cases found
        exact Nat.le_succ _
      · rw [if_neg last] at found
        rcases Option.map_eq_some_iff.mp found with ⟨later, reads, rfl⟩
        have shorter := inductionHypothesis reads
        exact Nat.le_succ_of_le shorter

/-- A field is cut out of the input, and the rest of the input follows it. -/
theorem length_readField {input rest : Bytes} {field : Field}
    (found : Foundation.readField input = some (field, rest)) :
    rest.length ≤ input.length ∧
      ∀ content, field.value = .delimited content → content.length ≤ input.length := by
  unfold Foundation.readField at found
  cases first : readVarint input with
  | none =>
      rw [first] at found
      cases found
  | some key =>
      rw [first] at found
      cases second : readVarint key.2 with
      | none =>
          simp only [second] at found
          cases found
      | some operand =>
          have keyLength := length_readVarint first
          have operandLength := length_readVarint second
          simp only [second] at found
          by_cases number : key.1 % 8 = 0
          · rw [if_pos number] at found
            cases found
            exact ⟨by omega, nofun⟩
          · rw [if_neg number] at found
            by_cases delimited : key.1 % 8 = 2 ∧ operand.1 ≤ operand.2.length
            · rw [if_pos delimited] at found
              cases found
              refine ⟨by rw [List.length_drop]; omega, fun content same => ?_⟩
              cases same
              rw [List.length_take]
              omega
            · rw [if_neg delimited] at found
              cases found

theorem decodeWhole_cuts : Cuts decodeWhole := by
  intro data fields decoded
  have inside {fuel : Nat} : ∀ input : Bytes, ∀ field ∈ (readFields fuel input).2, ∀ content,
      field.value = .delimited content → content.length ≤ input.length := by
    induction fuel with
    | zero => exact fun _ _ member => absurd member List.not_mem_nil
    | succ fuel inductionHypothesis =>
        intro input field member content holds
        rw [readFields] at member
        by_cases empty : input.isEmpty
        · rw [if_pos empty] at member
          cases member
        · rw [if_neg empty] at member
          cases found : Foundation.readField input with
          | none =>
              rw [found] at member
              cases member
          | some read =>
              have bounds := length_readField found
              rw [found] at member
              rcases List.mem_cons.mp member with rfl | later
              · exact bounds.2 content holds
              · exact Nat.le_trans (inductionHypothesis _ field later content holds) bounds.1
  unfold decodeWhole at decoded
  by_cases whole : (decodeFields data).1 = true
  · rw [if_pos whole] at decoded
    cases decoded
    exact inside data
  · rw [if_neg whole] at decoded
    cases decoded

end Foundation
end ProtobufMq
