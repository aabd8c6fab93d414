import ProtobufMq.Foundation.Framing
import ProtobufMq.Foundation.Run

namespace ProtobufMq

open Foundation

/-!
# `Buffer`: the bytes of a connection

A vector holds the bytes that were received and not used, or put together and
not sent, between two indices.  What stands before the first index was used
already, or is kept free for a length to be put in front; what stands behind
the second is free.  Appending makes space when there is too little, by growing
the vector or by moving the bytes to the front.

An assertion that fails ends the program, and so would a copy that leaves the
vector; either is the result `none`.  The indices are in order in every buffer,
so this is part of the type.  That memory runs out is left out, and so are
lengths that no vector can have, for which the sums of the source wrap around.
-/

/-! ## Numbers of 32 bits in network order -/

/-- `static_cast<int32_t>`. -/
def int32 (number : Int) : Int :=
  number.bmod (2 ^ 32)

/-- The bytes of a 32-bit number after `hostToNetwork32`. -/
def networkBytes (number : Int) : Bytes :=
  (leBytes 4 (number % 2 ^ 32).toNat).reverse

/-- `asInt32`: the number of four bytes in network order. -/
def asInt32 (bytes : Bytes) : Int :=
  int32 (leNat bytes.reverse)

@[simp] theorem length_networkBytes (number : Int) : (networkBytes number).length = 4 := by
  rw [networkBytes, List.length_reverse, length_leBytes]

/-- A number is read back as far as 32 bits hold it. -/
theorem asInt32_networkBytes (number : Int) : asInt32 (networkBytes number) = int32 number := by
  have positive : 0 ≤ number % 2 ^ 32 := Int.emod_nonneg number (by decide)
  have small : (number % 2 ^ 32).toNat < 256 ^ 4 := by omega
  rw [asInt32, networkBytes, List.reverse_reverse, leNat_leBytes_of_lt small,
    Int.toNat_of_nonneg positive]
  exact Int.emod_bmod number (2 ^ 32)

theorem int32_of_small {number : Int} (nonneg : 0 ≤ number) (small : number < 2 ^ 31) :
    int32 number = number := by
  unfold int32
  rw [Int.bmod_def]
  omega

theorem int32_idem (number : Int) : int32 (int32 number) = int32 number :=
  Int.bmod_bmod

/-- A number is written as far as 32 bits hold it. -/
theorem networkBytes_int32 (number : Int) : networkBytes (int32 number) = networkBytes number := by
  have same : int32 number % 2 ^ 32 = number % 2 ^ 32 := by
    unfold int32
    rw [Int.bmod_def]
    omega
  rw [networkBytes, networkBytes, same]

/-- Four bytes are written back as they were read. -/
theorem networkBytes_asInt32 {bytes : Bytes} (four : bytes.length = 4) :
    networkBytes (asInt32 bytes) = bytes := by
  have limit := leNat_lt bytes.reverse
  rw [List.length_reverse, four] at limit
  have number : (asInt32 bytes % 2 ^ 32).toNat = leNat bytes.reverse := by
    unfold asInt32 int32
    rw [Int.bmod_def]
    omega
  have length : 4 = bytes.reverse.length := by rw [List.length_reverse, four]
  rw [networkBytes, number, length, leBytes_leNat, List.reverse_reverse]

/-- `kCheapPrepend`. -/
def kCheapPrepend : Nat := 8

/-- `std::vector<char>::max_size`.  With lengths up to it, no sum of the functions below
wraps around as a `size_t`. -/
def vectorMaxSize : Nat := 2 ^ 63 - 1

/-- `Buffer`. -/
structure Buffer where
  buffer : Bytes
  readerIndex : Nat
  writerIndex : Nat
  cheap : kCheapPrepend ≤ buffer.length
  ordered : readerIndex ≤ writerIndex
  within : writerIndex ≤ buffer.length

namespace Buffer

/-- The constructor. -/
def new (initialSize : Nat) : Buffer where
  buffer := List.replicate (kCheapPrepend + initialSize) 0
  readerIndex := kCheapPrepend
  writerIndex := kCheapPrepend
  cheap := by rw [List.length_replicate]; exact Nat.le_add_right _ _
  ordered := Nat.le_refl _
  within := by rw [List.length_replicate]; exact Nat.le_add_right _ _

/-- `Buffer::readableBytes`. -/
def readableBytes (buffer : Buffer) : Nat :=
  buffer.writerIndex - buffer.readerIndex

/-- `Buffer::writableBytes`. -/
def writableBytes (buffer : Buffer) : Nat :=
  buffer.buffer.length - buffer.writerIndex

/-- `Buffer::prependableBytes`. -/
def prependableBytes (buffer : Buffer) : Nat :=
  buffer.readerIndex

/-- The readable bytes, which begin at `Buffer::peek`. -/
def contents (buffer : Buffer) : Bytes :=
  (buffer.buffer.drop buffer.readerIndex).take buffer.readableBytes

/-- `Buffer::retrieveAll`. -/
def retrieveAll (buffer : Buffer) : Buffer :=
  { buffer with
    readerIndex := kCheapPrepend, writerIndex := kCheapPrepend
    ordered := Nat.le_refl _, within := buffer.cheap }

/-- `Buffer::retrieve`. -/
def retrieve (buffer : Buffer) (len : Nat) : Option Buffer :=
  if len ≤ buffer.readableBytes then
    if less : len < buffer.readableBytes then
      some { buffer with
        readerIndex := buffer.readerIndex + len
        ordered := by unfold readableBytes at less; omega }
    else some buffer.retrieveAll
  else none

/-- `std::vector::resize`. -/
def resize (bytes : Bytes) (size : Nat) : Bytes :=
  bytes.take size ++ List.replicate (size - bytes.length) 0

theorem length_resize (bytes : Bytes) (size : Nat) : (resize bytes size).length = size := by
  rw [resize, List.length_append, List.length_take, List.length_replicate]
  omega

/-- The bytes after `Buffer::makeSpace` has moved the readable ones to the front. -/
def moved (buffer : Buffer) : Bytes :=
  overwrite buffer.buffer kCheapPrepend buffer.contents

theorem length_contents (buffer : Buffer) : buffer.contents.length = buffer.readableBytes := by
  have ordered := buffer.ordered
  have within := buffer.within
  rw [contents, List.length_take, List.length_drop, readableBytes]
  omega

theorem length_moved {buffer : Buffer} (roomy : kCheapPrepend < buffer.readerIndex) :
    buffer.moved.length = buffer.buffer.length := by
  have ordered := buffer.ordered
  have within := buffer.within
  apply length_overwrite
  rw [length_contents, readableBytes]
  omega

/-- `Buffer::makeSpace`, which is called when there is too little space. -/
def makeSpace (buffer : Buffer) (len : Nat) (little : buffer.writableBytes < len) : Option Buffer :=
  if buffer.writableBytes + buffer.prependableBytes < len + kCheapPrepend then
    some { buffer with
      buffer := resize buffer.buffer (buffer.writerIndex + len)
      cheap := by
        have cheap := buffer.cheap
        have within := buffer.within
        unfold writableBytes at little
        rw [length_resize]
        omega
      within := by rw [length_resize]; exact Nat.le_add_right _ _ }
  else if roomy : kCheapPrepend < buffer.readerIndex then
    some {
      buffer := buffer.moved
      readerIndex := kCheapPrepend
      writerIndex := kCheapPrepend + buffer.readableBytes
      cheap := by rw [length_moved roomy]; exact buffer.cheap
      ordered := Nat.le_add_right _ _
      within := by
        have ordered := buffer.ordered
        have within := buffer.within
        rw [length_moved roomy, readableBytes]
        omega }
  else none

/-- `Buffer::ensureWritableBytes`, for a length that a vector can have. -/
def ensureWritableBytes (buffer : Buffer) (len : Nat) : Option Buffer :=
  let made := if little : buffer.writableBytes < len then buffer.makeSpace len little else some buffer
  made.bind fun next => if len ≤ next.writableBytes then some next else none

/-- `std::copy` to `Buffer::beginWrite`. -/
def copyIn (buffer : Buffer) (data : Bytes) : Option Buffer :=
  if fits : data.length ≤ buffer.writableBytes then
    have inside : buffer.writerIndex + data.length ≤ buffer.buffer.length := by
      have within := buffer.within
      unfold writableBytes at fits
      omega
    some { buffer with
      buffer := overwrite buffer.buffer buffer.writerIndex data
      cheap := by rw [length_overwrite inside]; exact buffer.cheap
      within := by rw [length_overwrite inside]; exact buffer.within }
  else none

/-- `Buffer::hasWritten`. -/
def hasWritten (buffer : Buffer) (len : Nat) : Option Buffer :=
  if fits : len ≤ buffer.writableBytes then
    some { buffer with
      writerIndex := buffer.writerIndex + len
      ordered := Nat.le_trans buffer.ordered (Nat.le_add_right _ _)
      within := by
        have within := buffer.within
        unfold writableBytes at fits
        omega }
  else none

/-- `Buffer::append`. -/
def append (buffer : Buffer) (data : Bytes) : Option Buffer := do
  let roomy ← buffer.ensureWritableBytes data.length
  let copied ← roomy.copyIn data
  copied.hasWritten data.length

/-- `Buffer::appendInt32`. -/
def appendInt32 (buffer : Buffer) (number : Int) : Option Buffer :=
  buffer.append (networkBytes number)

/-- `Buffer::peekInt32`. -/
def peekInt32 (buffer : Buffer) : Option Int :=
  if 4 ≤ buffer.readableBytes then some (asInt32 (buffer.contents.take 4)) else none

/-- `Buffer::unwrite`. -/
def unwrite (buffer : Buffer) (len : Nat) : Option Buffer :=
  if fits : len ≤ buffer.readableBytes then
    some { buffer with
      writerIndex := buffer.writerIndex - len
      ordered := by
        have ordered := buffer.ordered
        unfold readableBytes at fits
        omega
      within := Nat.le_trans (Nat.sub_le _ _) buffer.within }
  else none

/-- `Buffer::prepend`. -/
def prepend (buffer : Buffer) (data : Bytes) : Option Buffer :=
  if fits : data.length ≤ buffer.prependableBytes then
    have inside : buffer.readerIndex - data.length + data.length ≤ buffer.buffer.length := by
      have ordered := buffer.ordered
      have within := buffer.within
      unfold prependableBytes at fits
      omega
    some { buffer with
      buffer := overwrite buffer.buffer (buffer.readerIndex - data.length) data
      readerIndex := buffer.readerIndex - data.length
      cheap := by rw [length_overwrite inside]; exact buffer.cheap
      ordered := Nat.le_trans (Nat.sub_le _ _) buffer.ordered
      within := by rw [length_overwrite inside]; exact buffer.within }
  else none

/-! ## The readable bytes -/

/-- The vector as three parts, with the indices between them. -/
structure Lays (buffer : Buffer) (front content back : Bytes) : Prop where
  bytes : buffer.buffer = front ++ content ++ back
  reader : buffer.readerIndex = front.length
  writer : buffer.writerIndex = front.length + content.length

theorem exists_lays (buffer : Buffer) :
    ∃ front back, buffer.Lays front buffer.contents back := by
  have ordered := buffer.ordered
  have within := buffer.within
  have readerLength : (buffer.buffer.take buffer.readerIndex).length = buffer.readerIndex := by
    rw [List.length_take]
    omega
  refine ⟨buffer.buffer.take buffer.readerIndex, buffer.buffer.drop buffer.writerIndex, ?_, ?_, ?_⟩
  · have behind : buffer.buffer.drop buffer.writerIndex =
        (buffer.buffer.drop buffer.readerIndex).drop buffer.readableBytes := by
      rw [List.drop_drop, readableBytes, Nat.add_sub_cancel' ordered]
    rw [behind, contents, List.append_assoc, List.take_append_drop, List.take_append_drop]
  · exact readerLength.symm
  · rw [readerLength, length_contents, readableBytes, Nat.add_sub_cancel' ordered]

namespace Lays

variable {buffer : Buffer} {front content back : Bytes}

theorem readableBytes_eq (lays : buffer.Lays front content back) :
    buffer.readableBytes = content.length := by
  rw [readableBytes, lays.reader, lays.writer, Nat.add_sub_cancel_left]

theorem contents_eq (lays : buffer.Lays front content back) : buffer.contents = content := by
  rw [contents, lays.readableBytes_eq, lays.bytes, lays.reader, List.append_assoc, List.drop_left,
    List.take_left]

theorem writableBytes_eq (lays : buffer.Lays front content back) :
    buffer.writableBytes = back.length := by
  rw [writableBytes, lays.writer, lays.bytes]
  simp only [List.length_append]
  omega

end Lays

section Results

variable {buffer next : Buffer} {data : Bytes} {len : Nat}

@[simp] theorem contents_new (initialSize : Nat) : (new initialSize).contents = [] := by
  rw [contents, readableBytes, new, Nat.sub_self, List.take_zero]

@[simp] theorem contents_retrieveAll (buffer : Buffer) : buffer.retrieveAll.contents = [] := by
  rw [contents, readableBytes, retrieveAll, Nat.sub_self, List.take_zero]

/-- Retrieving takes bytes from the front. -/
theorem retrieve_ok (fits : len ≤ buffer.readableBytes) :
    ∃ next, buffer.retrieve len = some next ∧ next.contents = buffer.contents.drop len := by
  rw [retrieve, if_pos fits]
  by_cases less : len < buffer.readableBytes
  · rw [dif_pos less]
    refine ⟨_, rfl, ?_⟩
    have rest : buffer.writerIndex - (buffer.readerIndex + len) = buffer.readableBytes - len := by
      rw [readableBytes]
      omega
    change ((buffer.buffer.drop (buffer.readerIndex + len)).take
      (buffer.writerIndex - (buffer.readerIndex + len))) = _
    rw [rest, contents, List.drop_take, List.drop_drop]
  · have all : buffer.contents.length ≤ len := by
      rw [length_contents]
      omega
    rw [dif_neg less]
    exact ⟨_, rfl, by rw [contents_retrieveAll, List.drop_eq_nil_of_le all]⟩

/-- Making space keeps the readable bytes, and never fails. -/
theorem makeSpace_ok (little : buffer.writableBytes < len) :
    ∃ next, buffer.makeSpace len little = some next ∧ next.contents = buffer.contents ∧
      len ≤ next.writableBytes ∧
      (next.readerIndex = buffer.readerIndex ∨
        kCheapPrepend < buffer.readerIndex ∧ next.readerIndex = kCheapPrepend) := by
  rcases buffer.exists_lays with ⟨front, back, lays⟩
  have ordered := buffer.ordered
  have within := buffer.within
  unfold makeSpace
  by_cases grows : buffer.writableBytes + buffer.prependableBytes < len + kCheapPrepend
  · rw [if_pos grows]
    refine ⟨_, rfl, ?_, ?_, Or.inl rfl⟩
    · -- the indices stay, and so do the bytes before the second one
      have whole : buffer.buffer.length ≤ buffer.writerIndex + len := by
        unfold writableBytes at little
        omega
      have grown : Lays { buffer with
          buffer := resize buffer.buffer (buffer.writerIndex + len)
          cheap := by rw [length_resize]; exact Nat.le_trans buffer.cheap whole
          within := by rw [length_resize]; exact Nat.le_add_right _ _ } front buffer.contents
          (back ++ List.replicate (buffer.writerIndex + len - buffer.buffer.length) 0) := by
        refine ⟨?_, lays.reader, lays.writer⟩
        change resize buffer.buffer (buffer.writerIndex + len) = _
        rw [resize, List.take_of_length_le whole, ← List.append_assoc, ← lays.bytes]
      exact grown.contents_eq
    · change len ≤ (resize buffer.buffer (buffer.writerIndex + len)).length - buffer.writerIndex
      rw [length_resize, Nat.add_sub_cancel_left]
  · have roomy : kCheapPrepend < buffer.readerIndex := by
      unfold prependableBytes at grows
      omega
    rw [if_neg grows, dif_pos roomy]
    refine ⟨_, rfl, ?_, ?_, Or.inr ⟨roomy, rfl⟩⟩
    · have fits : kCheapPrepend + buffer.contents.length ≤ buffer.buffer.length := by
        rw [length_contents, readableBytes]
        omega
      change (buffer.moved.drop kCheapPrepend).take
        (kCheapPrepend + buffer.readableBytes - kCheapPrepend) = _
      have parts : buffer.buffer =
          buffer.buffer.take kCheapPrepend ++
            (buffer.buffer.drop kCheapPrepend).take buffer.contents.length ++
              buffer.buffer.drop (kCheapPrepend + buffer.contents.length) := by
        rw [← List.drop_drop, List.append_assoc, List.take_append_drop, List.take_append_drop]
      have frontLength : (buffer.buffer.take kCheapPrepend).length = kCheapPrepend := by
        rw [List.length_take, Nat.min_eq_left buffer.cheap]
      have overwritten := overwrite_of_append (buffer.buffer.take kCheapPrepend)
        ((buffer.buffer.drop kCheapPrepend).take buffer.contents.length) buffer.contents
        (buffer.buffer.drop (kCheapPrepend + buffer.contents.length)) (by
          rw [List.length_take, List.length_drop]
          omega)
      rw [← parts, frontLength] at overwritten
      rw [moved, overwritten, Nat.add_sub_cancel_left, List.append_assoc,
        List.drop_left' frontLength, ← length_contents, List.take_left]
    · change len ≤ buffer.moved.length - (kCheapPrepend + buffer.readableBytes)
      rw [length_moved roomy]
      unfold writableBytes prependableBytes at grows
      rw [readableBytes]
      omega

/-- There is always enough space once it was asked for. -/
theorem ensureWritableBytes_ok (buffer : Buffer) (len : Nat) :
    ∃ next, buffer.ensureWritableBytes len = some next ∧ next.contents = buffer.contents ∧
      len ≤ next.writableBytes ∧
      (next.readerIndex = buffer.readerIndex ∨
        kCheapPrepend < buffer.readerIndex ∧ next.readerIndex = kCheapPrepend) := by
  unfold ensureWritableBytes
  by_cases little : buffer.writableBytes < len
  · rcases makeSpace_ok little with ⟨next, made, kept, room, index⟩
    refine ⟨next, ?_, kept, room, index⟩
    simp only [dif_pos little, made, Option.bind_some, if_pos room]
  · refine ⟨buffer, ?_, rfl, Nat.le_of_not_lt little, Or.inl rfl⟩
    simp only [dif_neg little, Option.bind_some, if_pos (Nat.le_of_not_lt little)]

/-- What was copied behind the readable bytes is readable once it counts as written. -/
theorem write_ok (fits : data.length ≤ buffer.writableBytes) :
    ∃ next, (buffer.copyIn data).bind (·.hasWritten data.length) = some next ∧
      next.contents = buffer.contents ++ data ∧ next.readerIndex = buffer.readerIndex := by
  rcases buffer.exists_lays with ⟨front, back, lays⟩
  have inside : buffer.writerIndex + data.length ≤ buffer.buffer.length := by
    have within := buffer.within
    unfold writableBytes at fits
    omega
  have room : data.length ≤ back.length := lays.writableBytes_eq ▸ fits
  have after : buffer.writableBytes =
      (overwrite buffer.buffer buffer.writerIndex data).length - buffer.writerIndex := by
    rw [length_overwrite inside, writableBytes]
  rw [copyIn, dif_pos fits, Option.bind_some, hasWritten, dif_pos (by rw [after] at fits; exact fits)]
  refine ⟨_, rfl, ?_, rfl⟩
  refine @Lays.contents_eq _ front _ (back.drop data.length) ⟨?_, lays.reader, ?_⟩
  · have parts : buffer.buffer =
        front ++ buffer.contents ++ back.take data.length ++ back.drop data.length := by
      rw [List.append_assoc, List.take_append_drop]
      exact lays.bytes
    have place : buffer.writerIndex = (front ++ buffer.contents).length := by
      rw [List.length_append]
      exact lays.writer
    change overwrite buffer.buffer buffer.writerIndex data = _
    rw [parts, place, overwrite_of_append _ _ _ _ (by rw [List.length_take]; omega),
      List.append_assoc front]
  · change buffer.writerIndex + data.length = _
    rw [lays.writer, List.length_append, Nat.add_assoc]

/-- Appending never fails. -/
theorem append_ok (buffer : Buffer) (data : Bytes) :
    ∃ next, buffer.append data = some next ∧ next.contents = buffer.contents ++ data ∧
      (next.readerIndex = buffer.readerIndex ∨
        kCheapPrepend < buffer.readerIndex ∧ next.readerIndex = kCheapPrepend) := by
  rcases buffer.ensureWritableBytes_ok data.length with ⟨roomy, ensured, kept, room, index⟩
  rcases write_ok room with ⟨next, written, contents, same⟩
  refine ⟨next, ?_, ?_, ?_⟩
  · rw [append, ensured]
    exact written
  · rw [contents, kept]
  · rw [same]
    exact index

theorem unwrite_ok (fits : len ≤ buffer.readableBytes) :
    ∃ next, buffer.unwrite len = some next ∧
      next.contents = buffer.contents.take (buffer.readableBytes - len) := by
  rw [unwrite, dif_pos fits]
  refine ⟨_, rfl, ?_⟩
  change (buffer.buffer.drop buffer.readerIndex).take (buffer.writerIndex - len - buffer.readerIndex)
    = _
  have less : buffer.writerIndex - len - buffer.readerIndex = buffer.readableBytes - len := by
    rw [readableBytes]
    omega
  rw [less, contents, List.take_take, Nat.min_eq_left (Nat.sub_le _ _)]

/-- Prepending puts bytes in front. -/
theorem prepend_ok (fits : data.length ≤ buffer.prependableBytes) :
    ∃ next, buffer.prepend data = some next ∧ next.contents = data ++ buffer.contents ∧
      next.readerIndex = buffer.readerIndex - data.length := by
  rcases buffer.exists_lays with ⟨front, back, lays⟩
  rw [prepend, dif_pos fits]
  refine ⟨_, rfl, ?_, rfl⟩
  unfold prependableBytes at fits
  have frontLength := lays.reader
  have kept : (front.take (buffer.readerIndex - data.length)).length =
      buffer.readerIndex - data.length := by
    rw [List.length_take]
    omega
  refine @Lays.contents_eq _ (front.take (buffer.readerIndex - data.length)) _ back
    ⟨?_, kept.symm, ?_⟩
  · have parts : buffer.buffer =
        front.take (buffer.readerIndex - data.length) ++
          front.drop (buffer.readerIndex - data.length) ++ (buffer.contents ++ back) := by
      rw [List.take_append_drop, ← List.append_assoc]
      exact lays.bytes
    have overwritten := overwrite_of_append (front.take (buffer.readerIndex - data.length))
      (front.drop (buffer.readerIndex - data.length)) data (buffer.contents ++ back) (by
        rw [List.length_drop]
        omega)
    rw [← parts, kept] at overwritten
    change overwrite buffer.buffer (buffer.readerIndex - data.length) data = _
    rw [overwritten]
    simp only [List.append_assoc]
  · change buffer.writerIndex = _
    rw [kept, lays.writer, List.length_append]
    omega

end Results

/-! ## Whole runs -/

/-- The operations on a buffer.  No more space is asked for than a vector can have. -/
inductive Operation where
  | append (data : Bytes)
  | retrieve (len : Nat)
  | retrieveAll
  | ensureWritableBytes (len : Nat) (bounded : len ≤ vectorMaxSize)
  | unwrite (len : Nat)
  | prepend (data : Bytes)

namespace Operation

/-- Carry an operation out. -/
def apply (buffer : Buffer) : Operation → Option Buffer
  | .append data => buffer.append data
  | .retrieve len => buffer.retrieve len
  | .retrieveAll => some buffer.retrieveAll
  | .ensureWritableBytes len _ => buffer.ensureWritableBytes len
  | .unwrite len => buffer.unwrite len
  | .prepend data => buffer.prepend data

/-- What an operation is for: bytes enter at the one end or at the other, and leave. -/
def effect (contents : Bytes) : Operation → Bytes
  | .append data => contents ++ data
  | .retrieve len => contents.drop len
  | .retrieveAll => []
  | .ensureWritableBytes _ _ => contents
  | .unwrite len => contents.take (contents.length - len)
  | .prepend data => data ++ contents

/-- What the caller of an operation is to see to. -/
def Allowed (buffer : Buffer) : Operation → Prop
  | .retrieve len => len ≤ buffer.readableBytes
  | .unwrite len => len ≤ buffer.readableBytes
  | .prepend data => data.length ≤ buffer.prependableBytes
  | _ => True

variable {buffer : Buffer} {operation : Operation}

/-- An operation whose caller has seen to that fails no assertion. -/
theorem apply_allowed (allowed : operation.Allowed buffer) :
    ∃ next, operation.apply buffer = some next ∧
      next.contents = operation.effect buffer.contents := by
  cases operation with
  | append data =>
      rcases buffer.append_ok data with ⟨next, done, contents, _⟩
      exact ⟨next, done, contents⟩
  | retrieve len => exact retrieve_ok allowed
  | retrieveAll => exact ⟨_, rfl, contents_retrieveAll buffer⟩
  | ensureWritableBytes len bounded =>
      rcases buffer.ensureWritableBytes_ok len with ⟨next, done, contents, _⟩
      exact ⟨next, done, contents⟩
  | unwrite len =>
      rw [effect, length_contents]
      exact unwrite_ok allowed
  | prepend data =>
      rcases prepend_ok allowed with ⟨next, done, contents, _⟩
      exact ⟨next, done, contents⟩

/-- Any other operation fails one. -/
theorem apply_refused (refused : ¬operation.Allowed buffer) : operation.apply buffer = none := by
  cases operation with
  | append data => exact absurd trivial refused
  | retrieve len => exact if_neg refused
  | retrieveAll => exact absurd trivial refused
  | ensureWritableBytes len bounded => exact absurd trivial refused
  | unwrite len => exact dif_neg refused
  | prepend data => exact dif_neg refused

end Operation

/-- Carry an operation out in a run. -/
def perform (buffer : Buffer) (operation : Operation) : Except Unit Buffer :=
  (operation.apply buffer).elim (.error ()) .ok

theorem perform_eq_ok {buffer next : Buffer} {operation : Operation} :
    buffer.perform operation = .ok next ↔ operation.apply buffer = some next := by
  unfold perform
  cases operation.apply buffer with
  | none => exact ⟨nofun, nofun⟩
  | some other =>
      exact ⟨fun same => congrArg some (Except.ok.inj same), fun same =>
        congrArg Except.ok (Option.some.inj same)⟩

/-- An operation that fails no assertion was allowed, and has its effect. -/
theorem perform_ok {buffer next : Buffer} {operation : Operation}
    (performed : buffer.perform operation = .ok next) :
    operation.Allowed buffer ∧ next.contents = operation.effect buffer.contents := by
  have applied := perform_eq_ok.mp performed
  have allowed : operation.Allowed buffer := by
    by_contra refused
    rw [Operation.apply_refused refused] at applied
    cases applied
  rcases Operation.apply_allowed allowed with ⟨other, done, effect⟩
  cases applied.symm.trans done
  exact ⟨allowed, effect⟩

/-- A run fails no assertion exactly if its caller retrieves, takes back and prepends no
more than there is room for. -/
theorem completes_iff_allowed (buffer : Buffer) (operations : List Operation) :
    (∃ final, run perform buffer operations = .ok final) ↔
      Along perform (fun buffer operation => operation.Allowed buffer) buffer operations := by
  induction operations generalizing buffer with
  | nil => exact ⟨fun _ => trivial, fun _ => ⟨buffer, rfl⟩⟩
  | cons operation rest inductionHypothesis =>
      constructor
      · rintro ⟨final, completes⟩
        rcases run_cons_inv completes with ⟨next, stepped, continued⟩
        exact along_cons (perform_ok stepped).1 stepped
          ((inductionHypothesis next).mp ⟨final, continued⟩)
      · rintro ⟨allowed, onward⟩
        rcases Operation.apply_allowed allowed with ⟨next, done, _⟩
        have stepped := perform_eq_ok.mpr done
        rcases (inductionHypothesis next).mpr (onward next stepped) with ⟨final, continued⟩
        exact ⟨final, (run_cons_ok stepped).trans continued⟩

/-- What can be read at the end of a run is what its operations put there. -/
theorem contents_of_completed {buffer final : Buffer} {operations : List Operation}
    (completes : run perform buffer operations = .ok final) :
    final.contents = operations.foldl Operation.effect buffer.contents := by
  induction operations generalizing buffer with
  | nil =>
      cases completes
      rfl
  | cons operation rest inductionHypothesis =>
      rcases run_cons_inv completes with ⟨next, stepped, continued⟩
      rw [inductionHypothesis continued, List.foldl_cons, (perform_ok stepped).2]

/-- A buffer is a queue of bytes: a run fails no assertion exactly if every step of it is
allowed, and what can be read at its end is what its operations put there. -/
theorem run_iff_allowed (buffer : Buffer) (operations : List Operation) :
    ((∃ final, run perform buffer operations = .ok final) ↔
        Along perform (fun buffer operation => operation.Allowed buffer) buffer operations) ∧
      ∀ final, run perform buffer operations = .ok final →
        final.contents = operations.foldl Operation.effect buffer.contents :=
  ⟨completes_iff_allowed buffer operations, fun _ => contents_of_completed⟩

end Buffer

end ProtobufMq
