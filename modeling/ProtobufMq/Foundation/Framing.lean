import Mathlib.Data.List.Basic
import Mathlib.Tactic.Ring

namespace ProtobufMq
namespace Foundation

/-!
# Length-prefixed frames in a byte file

A byte file may hold a sequence of bodies, each preceded by its length as a
fixed-width little-endian number.  The format has no index: a body is found
again only by its position, so the three edits that such a file undergoes are
stated here with the positions they leave alone.  Appending a frame keeps every
earlier body where it was; overwriting a body by one of the same length keeps
every other body where it was; and writing beyond the end leaves a gap of zero
bytes before the written data.
-/

/-- A finite byte sequence: the content of a file, or a string. -/
abbrev Bytes := List UInt8

/-! ## Little-endian numbers of a fixed width -/

/-- The `width` low-order bytes of a number, least significant first. -/
def leBytes : Nat → Nat → Bytes
  | 0, _ => []
  | width + 1, number => UInt8.ofNat number :: leBytes width (number / 256)

/-- The number written by a little-endian byte sequence. -/
def leNat : Bytes → Nat
  | [] => 0
  | byte :: rest => byte.toNat + 256 * leNat rest

@[simp] theorem length_leBytes (width number : Nat) : (leBytes width number).length = width := by
  induction width generalizing number with
  | zero => rfl
  | succ width inductionHypothesis =>
      rw [leBytes, List.length_cons, inductionHypothesis]

theorem leNat_leBytes (width number : Nat) : leNat (leBytes width number) = number % 256 ^ width := by
  induction width generalizing number with
  | zero =>
      rw [pow_zero, Nat.mod_one]
      rfl
  | succ width inductionHypothesis =>
      have low : (UInt8.ofNat number).toNat = number % 256 := UInt8.toNat_ofNat'
      rw [leBytes, leNat, inductionHypothesis, low, pow_succ', Nat.mod_mul]

/-- A number that fits its width is read back. -/
theorem leNat_leBytes_of_lt {width number : Nat} (fits : number < 256 ^ width) :
    leNat (leBytes width number) = number := by
  rw [leNat_leBytes, Nat.mod_eq_of_lt fits]

/-- A number of some bytes fits their width. -/
theorem leNat_lt (bytes : Bytes) : leNat bytes < 256 ^ bytes.length := by
  induction bytes with
  | nil => exact Nat.one_pos
  | cons byte rest inductionHypothesis =>
      have small := byte.toNat_lt
      rw [leNat, List.length_cons, pow_succ']
      omega

theorem leNat_append (first second : Bytes) :
    leNat (first ++ second) = leNat first + 256 ^ first.length * leNat second := by
  induction first with
  | nil => rw [List.nil_append, leNat, List.length_nil, pow_zero, Nat.one_mul, Nat.zero_add]
  | cons byte rest inductionHypothesis =>
      rw [List.cons_append, leNat, leNat, inductionHypothesis, List.length_cons, pow_succ']
      ring

/-- Bytes are written back as they were read. -/
theorem leBytes_leNat (bytes : Bytes) : leBytes bytes.length (leNat bytes) = bytes := by
  induction bytes with
  | nil => rfl
  | cons byte rest inductionHypothesis =>
      have small := byte.toNat_lt
      have first : UInt8.ofNat (byte.toNat + 256 * leNat rest) = byte := by
        apply UInt8.toNat_inj.mp
        rw [UInt8.toNat_ofNat']
        omega
      have later : (byte.toNat + 256 * leNat rest) / 256 = leNat rest := by omega
      rw [leNat, List.length_cons, leBytes, first, later, inductionHypothesis]

/-! ## Reading and writing at a position -/

/-- Read `length` bytes from a position; reading past the end fails. -/
def readAt (content : Bytes) (offset length : Nat) : Option Bytes :=
  if offset + length ≤ content.length then some ((content.drop offset).take length) else none

/-- Write data at a position.  Bytes beyond the end are created, and a gap
between the old end and the position is filled with zeros.  Writing no bytes
changes nothing. -/
def overwrite (content : Bytes) (offset : Nat) (data : Bytes) : Bytes :=
  if data = [] then content
  else content.take offset ++ List.replicate (offset - content.length) 0 ++ data ++
    content.drop (offset + data.length)

theorem readAt_of_append (before data after : Bytes) :
    readAt (before ++ data ++ after) before.length data.length = some data := by
  have within : before.length + data.length ≤ (before ++ data ++ after).length := by
    simp only [List.length_append]
    omega
  rw [readAt, if_pos within, List.append_assoc, List.drop_left, List.take_left]

/-- Reading from where something begins. -/
theorem readAt_append (before after : Bytes) (skip length : Nat) :
    readAt (before ++ after) (before.length + skip) length =
      if skip + length ≤ after.length then some ((after.drop skip).take length) else none := by
  rw [readAt, List.length_append, Nat.add_assoc, ← List.drop_drop, List.drop_left]
  by_cases within : skip + length ≤ after.length
  · rw [if_pos within, if_pos (Nat.add_le_add_left within _)]
  · rw [if_neg within, if_neg fun inside => within (Nat.le_of_add_le_add_left inside)]

/-- Writing at the end appends. -/
theorem overwrite_end (content data : Bytes) :
    overwrite content content.length data = content ++ data := by
  unfold overwrite
  by_cases empty : data = []
  · rw [if_pos empty, empty, List.append_nil]
  · rw [if_neg empty, List.take_length, Nat.sub_self, List.replicate_zero, List.append_nil,
      List.drop_eq_nil_of_le (Nat.le_add_right _ _), List.append_nil]

/-- Overwriting a stretch by data of the same length replaces that stretch
and nothing else. -/
theorem overwrite_of_append (before old new after : Bytes) (sameLength : new.length = old.length) :
    overwrite (before ++ old ++ after) before.length new = before ++ new ++ after := by
  unfold overwrite
  by_cases empty : new = []
  · have oldEmpty : old = [] := List.length_eq_zero_iff.mp (by rw [← sameLength, empty]; rfl)
    rw [if_pos empty, empty, oldEmpty]
  · have beforeEnd : before.length - (before ++ old ++ after).length = 0 := by
      simp only [List.length_append]
      omega
    rw [if_neg empty, beforeEnd, List.replicate_zero, List.append_nil, sameLength,
      List.append_assoc before old after, List.take_left, ← List.drop_drop, List.drop_left,
      List.drop_left]

/-- Writing inside keeps the size. -/
theorem length_overwrite {content data : Bytes} {offset : Nat}
    (within : offset + data.length ≤ content.length) :
    (overwrite content offset data).length = content.length := by
  unfold overwrite
  by_cases empty : data = []
  · rw [if_pos empty]
  · rw [if_neg empty]
    simp only [List.length_append, List.length_take, List.length_replicate, List.length_drop]
    omega

/-- Writing inside keeps every byte before and after the written stretch. -/
theorem getElem?_overwrite {content data : Bytes} {offset position : Nat}
    (within : offset + data.length ≤ content.length)
    (outside : position < offset ∨ offset + data.length ≤ position) :
    (overwrite content offset data)[position]? = content[position]? := by
  unfold overwrite
  by_cases empty : data = []
  · rw [if_pos empty]
  · have noGap : offset - content.length = 0 := by omega
    have headLength : (content.take offset).length = offset := by
      rw [List.length_take]
      omega
    rw [if_neg empty, noGap, List.replicate_zero, List.append_nil, List.append_assoc]
    rcases outside with before | after
    · rw [List.getElem?_append_left (by omega), List.getElem?_take_of_lt before]
    · rw [List.getElem?_append_right (by omega), List.getElem?_append_right (by omega),
        List.getElem?_drop, headLength]
      congr 1
      omega

/-- Writing beyond the end leaves a gap of zeros. -/
theorem overwrite_beyond {content data : Bytes} {offset : Nat}
    (beyond : content.length ≤ offset) (nonempty : data ≠ []) :
    overwrite content offset data =
      content ++ (List.replicate (offset - content.length) 0 ++ data) := by
  rw [overwrite, if_neg nonempty, List.take_of_length_le beyond,
    List.drop_eq_nil_of_le (Nat.le_trans beyond (Nat.le_add_right _ _)), List.append_nil,
    List.append_assoc]

/-! ## Frames -/

/-- A body preceded by its length in `width` bytes. -/
def frame (width : Nat) (body : Bytes) : Bytes :=
  leBytes width body.length ++ body

/-- The concatenation of the frames of a list of bodies. -/
def frames (width : Nat) (bodies : List Bytes) : Bytes :=
  bodies.flatMap (frame width)

variable (width : Nat)

@[simp] theorem frames_nil : frames width [] = [] := rfl

theorem frames_cons (body : Bytes) (rest : List Bytes) :
    frames width (body :: rest) = leBytes width body.length ++ (body ++ frames width rest) := by
  rw [frames, List.flatMap_cons, frame, List.append_assoc]
  rfl

theorem frames_append (first second : List Bytes) :
    frames width (first ++ second) = frames width first ++ frames width second :=
  List.flatMap_append

theorem frames_concat (bodies : List Bytes) (body : Bytes) :
    frames width (bodies ++ [body]) =
      frames width bodies ++ (leBytes width body.length ++ body) := by
  rw [frames_append, frames_cons, frames_nil, List.append_nil]

/-- The file around one body: what stands before it, and what stands after. -/
theorem frames_split (before : List Bytes) (body : Bytes) (after : List Bytes) :
    frames width (before ++ body :: after) =
      (frames width before ++ leBytes width body.length) ++ body ++ frames width after := by
  rw [frames_append, frames_cons, List.append_assoc, List.append_assoc]

/-- Replacing one body by another of the same length, in place. -/
theorem overwrite_frames (before : List Bytes) (old new : Bytes) (after : List Bytes)
    (sameLength : new.length = old.length) :
    overwrite (frames width (before ++ old :: after)) ((frames width before).length + width) new =
      frames width (before ++ new :: after) := by
  have position : (frames width before).length + width =
      (frames width before ++ leBytes width old.length).length := by
    rw [List.length_append, length_leBytes]
  rw [frames_split, position, overwrite_of_append _ _ _ _ sameLength, ← sameLength,
    ← frames_split]

/-- The item at an index, those before it, and those after it. -/
theorem take_cons_drop {α : Type*} {items : List α} {index : Nat} {item : α}
    (there : items[index]? = some item) :
    items = items.take index ++ item :: items.drop (index + 1) := by
  rcases List.getElem?_eq_some_iff.mp there with ⟨inside, same⟩
  rw [← same, ← List.drop_eq_getElem_cons inside, List.take_append_drop]

theorem set_eq_take_cons_drop {α : Type*} {items : List α} {index : Nat} {old : α}
    (there : items[index]? = some old) (new : α) :
    items.set index new = items.take index ++ new :: items.drop (index + 1) := by
  rcases List.getElem?_eq_some_iff.mp there with ⟨inside, _⟩
  rw [List.set_eq_take_append_cons_drop, if_pos inside]

/-- The length of a file is that of its bodies and of their headers. -/
theorem length_frames (bodies : List Bytes) :
    (frames width bodies).length = ((bodies.map List.length).map (width + ·)).sum := by
  induction bodies with
  | nil => rfl
  | cons body rest inductionHypothesis =>
      rw [frames_cons, List.length_append, length_leBytes, List.length_append,
        inductionHypothesis, List.map_cons, List.map_cons, List.sum_cons, Nat.add_assoc]

/-- A file of bodies of the same lengths has the same length. -/
theorem length_frames_congr {first second : List Bytes}
    (sameLengths : first.map List.length = second.map List.length) :
    (frames width first).length = (frames width second).length := by
  rw [length_frames, length_frames, sameLengths]

/-- A position and a length that are those of the body at an index. -/
def Delimits (bodies : List Bytes) (index offset length : Nat) : Prop :=
  ∃ body, bodies[index]? = some body ∧
    offset = (frames width (bodies.take index)).length + width ∧ length = body.length

section Delimited

variable {width} {bodies : List Bytes} {index offset length : Nat}

/-- Reading at the place of a body gives the body. -/
theorem Delimits.readAt (delimits : Delimits width bodies index offset length) :
    readAt (frames width bodies) offset length = bodies[index]? := by
  rcases delimits with ⟨body, there, position, size⟩
  have place : offset = (frames width (bodies.take index) ++ leBytes width body.length).length := by
    rw [position, List.length_append, length_leBytes]
  rw [there, take_cons_drop there, frames_split, size, place]
  exact readAt_of_append _ _ _

/-- Before the place of a body stands its length. -/
theorem Delimits.readHeader (delimits : Delimits width bodies index offset length) :
    Foundation.readAt (frames width bodies) (offset - width) width =
      some (leBytes width length) := by
  rcases delimits with ⟨body, there, position, size⟩
  have place : offset - width = (frames width (bodies.take index)).length := by
    rw [position, Nat.add_sub_cancel]
  have around : frames width bodies = frames width (bodies.take index) ++
      leBytes width body.length ++ (body ++ frames width (bodies.drop (index + 1))) := by
    conv_lhs => rw [take_cons_drop there]
    rw [frames_split, List.append_assoc]
  have read := readAt_of_append (frames width (bodies.take index)) (leBytes width body.length)
    (body ++ frames width (bodies.drop (index + 1)))
  rw [length_leBytes, ← around, ← place] at read
  rw [read, size]

/-- The place of a body is inside the file. -/
theorem Delimits.within (delimits : Delimits width bodies index offset length) :
    offset + length ≤ (frames width bodies).length := by
  have read := delimits.readAt
  rcases delimits with ⟨body, there, _⟩
  rw [there, Foundation.readAt] at read
  by_contra outside
  rw [if_neg outside] at read
  cases read

/-- Overwriting a body, at its place, by one of its length. -/
theorem Delimits.overwrite (delimits : Delimits width bodies index offset length) {new : Bytes}
    (sameLength : new.length = length) :
    overwrite (frames width bodies) offset new = frames width (bodies.set index new) := by
  rcases delimits with ⟨body, there, position, size⟩
  have replaced := overwrite_frames width (bodies.take index) body new (bodies.drop (index + 1))
    (sameLength.trans size)
  rw [← take_cons_drop there, ← set_eq_take_cons_drop there] at replaced
  rw [position]
  exact replaced

/-- A body keeps its place when another is replaced by one of the same length. -/
theorem Delimits.set (delimits : Delimits width bodies index offset length) {other : Nat}
    {old new : Bytes} (apart : other ≠ index) (there : bodies[other]? = some old)
    (sameLength : new.length = old.length) :
    Delimits width (bodies.set other new) index offset length := by
  rcases delimits with ⟨body, bodyThere, position, size⟩
  have lengths : (bodies.set other new).map List.length = bodies.map List.length := by
    rcases List.getElem?_eq_some_iff.mp there with ⟨inside, same⟩
    rw [List.map_set, sameLength, ← same]
    exact List.ext_getElem? fun position => by
      by_cases here : other = position
      · subst here
        rw [List.getElem?_set_self (by rwa [List.length_map]), List.getElem?_map,
          List.getElem?_eq_getElem inside]
        rfl
      · rw [List.getElem?_set_ne here]
  refine ⟨body, (List.getElem?_set_ne apart).trans bodyThere, ?_, size⟩
  rw [position]
  apply congrArg (· + width)
  apply length_frames_congr
  rw [List.map_take, List.map_take, lengths]

end Delimited

/-- No body is longer than the file that holds it. -/
theorem length_le_frames_length {bodies : List Bytes} {body : Bytes} (member : body ∈ bodies) :
    body.length ≤ (frames width bodies).length := by
  rcases List.append_of_mem member with ⟨before, after, split⟩
  rw [split, frames_split, List.length_append, List.length_append]
  omega

/-- A file is cut into frames in one way only. -/
theorem frames_injective {width : Nat} (positive : 0 < width) {first second : List Bytes}
    (firstFits : ∀ body ∈ first, body.length < 256 ^ width)
    (secondFits : ∀ body ∈ second, body.length < 256 ^ width)
    (same : frames width first = frames width second) : first = second := by
  induction first generalizing second with
  | nil =>
      cases second with
      | nil => rfl
      | cons body rest =>
          have lengths := congrArg List.length same
          rw [frames_nil, frames_cons, List.length_append, length_leBytes, List.length_nil] at lengths
          omega
  | cons body rest inductionHypothesis =>
      cases second with
      | nil =>
          have lengths := congrArg List.length same
          rw [frames_nil, frames_cons, List.length_append, length_leBytes, List.length_nil] at lengths
          omega
      | cons other later =>
          rw [frames_cons, frames_cons] at same
          have headers := List.append_inj same (by rw [length_leBytes, length_leBytes])
          have lengths := congrArg leNat headers.1
          rw [leNat_leBytes_of_lt (firstFits body List.mem_cons_self),
            leNat_leBytes_of_lt (secondFits other List.mem_cons_self)] at lengths
          have bodies := List.append_inj headers.2 lengths
          rw [bodies.1, inductionHypothesis
            (fun entry member => firstFits entry (List.mem_cons_of_mem _ member))
            (fun entry member => secondFits entry (List.mem_cons_of_mem _ member)) bodies.2]

/-! ## Cutting a file into frames -/

/-- No whole frame stands at the front. -/
def Incomplete (rest : Bytes) : Prop :=
  rest.length < width ∨ rest.length < width + leNat (rest.take width)

instance (rest : Bytes) : Decidable (Incomplete width rest) :=
  inferInstanceAs (Decidable (_ ∨ _))

/-- Take whole frames off the front, at most so many: the bodies, and what is
left. -/
def cutFrames : Nat → Bytes → List Bytes × Bytes
  | 0, content => ([], content)
  | fuel + 1, content =>
      if Incomplete width content then ([], content)
      else
        let size := leNat (content.take width)
        let later := cutFrames fuel (content.drop (width + size))
        ((content.drop width).take size :: later.1, later.2)

/-- Take all whole frames off the front. -/
def cut (content : Bytes) : List Bytes × Bytes :=
  cutFrames width content.length content

section Cutting

variable {width}

/-- There is nothing in an empty rest. -/
theorem incomplete_nil (positive : 0 < width) : Incomplete width [] :=
  Or.inl positive

/-- A frame is cut off the front whole. -/
theorem cutFrames_frames {bodies : List Bytes} {rest : Bytes} {fuel : Nat}
    (fit : ∀ body ∈ bodies, body.length < 256 ^ width) (incomplete : Incomplete width rest)
    (enough : bodies.length ≤ fuel) :
    cutFrames width fuel (frames width bodies ++ rest) = (bodies, rest) := by
  induction bodies generalizing fuel with
  | nil =>
      cases fuel with
      | zero => rfl
      | succ fuel => exact if_pos incomplete
  | cons body later inductionHypothesis =>
      cases fuel with
      | zero => exact absurd enough (Nat.not_succ_le_zero _)
      | succ fuel =>
          rw [List.forall_mem_cons] at fit
          have text : frames width (body :: later) ++ rest =
              leBytes width body.length ++ (body ++ (frames width later ++ rest)) := by
            rw [frames_cons, List.append_assoc, List.append_assoc]
          have header : (leBytes width body.length ++
              (body ++ (frames width later ++ rest))).take width = leBytes width body.length :=
            List.take_left' (length_leBytes ..)
          have whole : ¬ Incomplete width (leBytes width body.length ++
              (body ++ (frames width later ++ rest))) := by
            rw [Incomplete, header, leNat_leBytes_of_lt fit.1]
            simp only [List.length_append, length_leBytes]
            omega
          have first : (leBytes width body.length ++
              (body ++ (frames width later ++ rest))).drop width =
              body ++ (frames width later ++ rest) :=
            List.drop_left' (length_leBytes ..)
          have behind : (leBytes width body.length ++
              (body ++ (frames width later ++ rest))).drop (width + body.length) =
              frames width later ++ rest := by
            rw [← List.drop_drop, first, List.drop_left]
          rw [text, cutFrames, if_neg whole, header, leNat_leBytes_of_lt fit.1]
          simp only [behind, first, List.take_left,
            inductionHypothesis fit.2 (Nat.le_of_succ_le_succ enough)]

/-- Every file is a sequence of whole frames with an incomplete rest. -/
theorem exists_frames (positive : 0 < width) (content : Bytes) : ∃ bodies rest,
    content = frames width bodies ++ rest ∧ Incomplete width rest ∧
      (∀ body ∈ bodies, body.length < 256 ^ width) ∧ bodies.length ≤ content.length := by
  induction size : content.length using Nat.strong_induction_on generalizing content with
  | h total inductionHypothesis =>
      by_cases incomplete : Incomplete width content
      · refine ⟨[], content, rfl, incomplete, ?_, Nat.zero_le _⟩
        intro body impossible
        cases impossible
      · rw [Incomplete, not_or, Nat.not_lt, Nat.not_lt] at incomplete
        have header : (content.take width).length = width := List.length_take_of_le incomplete.1
        have fits := leNat_lt (content.take width)
        have written := leBytes_leNat (content.take width)
        rw [header] at fits written
        have bodyLength : ((content.drop width).take (leNat (content.take width))).length =
            leNat (content.take width) := by
          rw [List.length_take, List.length_drop]
          omega
        have shorter : (content.drop (width + leNat (content.take width))).length < total := by
          rw [List.length_drop]
          omega
        rcases inductionHypothesis _ shorter _ rfl with ⟨bodies, rest, text, left, fit, few⟩
        refine ⟨(content.drop width).take (leNat (content.take width)) :: bodies, rest, ?_, left,
          ?_, ?_⟩
        · rw [frames_cons, bodyLength, written, List.append_assoc, List.append_assoc, ← text,
            ← List.drop_drop, List.take_append_drop, List.take_append_drop]
        · rw [List.forall_mem_cons, bodyLength]
          exact ⟨fits, fit⟩
        · rw [List.length_cons]
          omega

/-- What `cut` gives is what the file consists of. -/
theorem cut_spec (positive : 0 < width) (content : Bytes) :
    content = frames width (cut width content).1 ++ (cut width content).2 ∧
      Incomplete width (cut width content).2 ∧
      (∀ body ∈ (cut width content).1, body.length < 256 ^ width) ∧
      (cut width content).1.length ≤ content.length := by
  rcases exists_frames positive content with ⟨bodies, rest, text, incomplete, fit, few⟩
  have whole : cut width content = (bodies, rest) := by
    have done := cutFrames_frames fit incomplete few
    rwa [← text] at done
  rw [whole]
  exact ⟨text, incomplete, fit, few⟩

/-- Frames and an incomplete rest are what a file is cut into. -/
theorem cut_frames_append (positive : 0 < width) {bodies : List Bytes} {rest : Bytes}
    (fit : ∀ body ∈ bodies, body.length < 256 ^ width) (incomplete : Incomplete width rest) :
    cut width (frames width bodies ++ rest) = (bodies, rest) := by
  have few : bodies.length ≤ (frames width bodies ++ rest).length := by
    clear fit
    induction bodies with
    | nil => exact Nat.zero_le _
    | cons body later inductionHypothesis =>
        rw [List.length_append] at inductionHypothesis
        rw [frames_cons, List.length_append, List.length_append, List.length_append,
          length_leBytes, List.length_cons]
        omega
  exact cutFrames_frames fit incomplete few

/-- A file that consists of frames is cut into them. -/
theorem cut_frames (positive : 0 < width) {bodies : List Bytes}
    (fit : ∀ body ∈ bodies, body.length < 256 ^ width) :
    cut width (frames width bodies) = (bodies, []) := by
  have whole := cut_frames_append positive fit (incomplete_nil positive)
  rwa [List.append_nil] at whole

end Cutting

end Foundation
end ProtobufMq
