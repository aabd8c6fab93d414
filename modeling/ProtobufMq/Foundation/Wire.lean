import ProtobufMq.Foundation.Framing

namespace ProtobufMq
namespace Foundation

/-!
# The tagged wire format

A message travels as a sequence of fields.  Each field is a tag, which packs a
field number with a wire type, followed by a value: a base-128 number (wire
type 0), or a length-delimited byte sequence (wire type 2).  These two wire
types are all that the messages of a string-and-enumeration schema use; the
reader stops at any other.

The reader returns the fields it could read together with whether it reached
the end of the input, since a receiver may look at what was read before a
failure.  Reading what was written returns the same fields.
-/

/-! ## Base-128 numbers -/

/-- Base-128 digits, least significant first, with at most `fuel` digits. -/
def varintDigits : Nat → Nat → Bytes
  | 0, _ => []
  | fuel + 1, number =>
      if number < 128 then [UInt8.ofNat number]
      else UInt8.ofNat (number % 128 + 128) :: varintDigits fuel (number / 128)

/-- A number in base 128; every byte but the last has its high bit set. -/
def varint (number : Nat) : Bytes :=
  varintDigits (number + 1) number

/-- Read a base-128 number from the front of the input. -/
def readVarint : Bytes → Option (Nat × Bytes)
  | [] => none
  | byte :: rest =>
      if byte.toNat < 128 then some (byte.toNat, rest)
      else (readVarint rest).map fun read => (byte.toNat - 128 + 128 * read.1, read.2)

theorem readVarint_varintDigits {fuel number : Nat} (enough : number < fuel) (rest : Bytes) :
    readVarint (varintDigits fuel number ++ rest) = some (number, rest) := by
  induction fuel generalizing number with
  | zero => exact absurd enough (Nat.not_lt_zero number)
  | succ fuel inductionHypothesis =>
      by_cases small : number < 128
      · have byte : (UInt8.ofNat number).toNat = number := by
          rw [UInt8.toNat_ofNat']
          omega
        rw [varintDigits, if_pos small, List.singleton_append, readVarint, byte, if_pos small]
      · have byte : (UInt8.ofNat (number % 128 + 128)).toNat = number % 128 + 128 := by
          rw [UInt8.toNat_ofNat']
          omega
        have digits : number / 128 < fuel := by omega
        have high : ¬ number % 128 + 128 < 128 := by omega
        have value : number % 128 + 128 - 128 + 128 * (number / 128) = number := by omega
        rw [varintDigits, if_neg small, List.cons_append, readVarint, byte, if_neg high,
          inductionHypothesis digits, Option.map_some, value]

/-- A written number is read back, and the input after it is untouched. -/
theorem readVarint_varint (number : Nat) (rest : Bytes) :
    readVarint (varint number ++ rest) = some (number, rest) :=
  readVarint_varintDigits (Nat.lt_succ_self number) rest

theorem varint_length_pos (number : Nat) : 0 < (varint number).length := by
  unfold varint varintDigits
  split <;> exact Nat.succ_pos _

/-! ## Fields -/

/-- The value of a field, by wire type. -/
inductive FieldValue where
  | number (value : Nat)
  | delimited (data : Bytes)
  deriving DecidableEq, Repr

/-- A field number with its value. -/
structure Field where
  tag : Nat
  value : FieldValue
  deriving DecidableEq, Repr

/-- The bytes of one field. -/
def Field.encode (field : Field) : Bytes :=
  match field.value with
  | .number value => varint (field.tag * 8) ++ varint value
  | .delimited data => varint (field.tag * 8 + 2) ++ (varint data.length ++ data)

/-- The bytes of a sequence of fields. -/
def encodeFields (fields : List Field) : Bytes :=
  fields.flatMap Field.encode

/-- Read one field from the front of the input. -/
def readField (input : Bytes) : Option (Field × Bytes) :=
  match readVarint input with
  | none => none
  | some (key, afterKey) =>
      match readVarint afterKey with
      | none => none
      | some (operand, rest) =>
          if key % 8 = 0 then some (⟨key / 8, .number operand⟩, rest)
          else if key % 8 = 2 ∧ operand ≤ rest.length then
            some (⟨key / 8, .delimited (rest.take operand)⟩, rest.drop operand)
          else none

/-- Read fields until the input is used up or a field cannot be read. -/
def readFields : Nat → Bytes → Bool × List Field
  | 0, input => (input.isEmpty, [])
  | fuel + 1, input =>
      if input.isEmpty then (true, [])
      else
        match readField input with
        | none => (false, [])
        | some (field, rest) =>
            let later := readFields fuel rest
            (later.1, field :: later.2)

/-- Read all fields of an input. -/
def decodeFields (input : Bytes) : Bool × List Field :=
  readFields input.length input

theorem readField_encode (field : Field) (rest : Bytes) :
    readField (field.encode ++ rest) = some (field, rest) := by
  rcases field with ⟨tag, value⟩
  cases value with
  | number value =>
      have wire : tag * 8 % 8 = 0 := Nat.mul_mod_left tag 8
      have number : tag * 8 / 8 = tag := Nat.mul_div_cancel tag (by omega)
      simp only [readField, Field.encode, List.append_assoc, readVarint_varint, wire, if_pos, number]
  | delimited data =>
      have wire : (tag * 8 + 2) % 8 = 2 := by omega
      have notNumber : ¬ (tag * 8 + 2) % 8 = 0 := by omega
      have number : (tag * 8 + 2) / 8 = tag := by omega
      have within : (tag * 8 + 2) % 8 = 2 ∧ data.length ≤ (data ++ rest).length := by
        rw [List.length_append]
        omega
      simp only [readField, Field.encode, List.append_assoc, readVarint_varint]
      rw [if_neg notNumber, if_pos within, number, List.take_left, List.drop_left]

theorem encode_length_pos (field : Field) : 0 < field.encode.length := by
  rcases field with ⟨tag, value⟩
  cases value with
  | number value =>
      have first := varint_length_pos (tag * 8)
      simp only [Field.encode, List.length_append]
      omega
  | delimited data =>
      have first := varint_length_pos (tag * 8 + 2)
      simp only [Field.encode, List.length_append]
      omega

theorem readFields_encodeFields (fields : List Field) {fuel : Nat}
    (enough : (encodeFields fields).length ≤ fuel) :
    readFields fuel (encodeFields fields) = (true, fields) := by
  induction fields generalizing fuel with
  | nil =>
      cases fuel with
      | zero => rfl
      | succ fuel => rfl
  | cons field rest inductionHypothesis =>
      have first := encode_length_pos field
      have split : encodeFields (field :: rest) = field.encode ++ encodeFields rest :=
        List.flatMap_cons
      rw [split, List.length_append] at enough
      cases fuel with
      | zero => omega
      | succ fuel =>
          have nonempty : ¬ (field.encode ++ encodeFields rest).isEmpty = true := by
            rw [List.isEmpty_iff_length_eq_zero, List.length_append]
            omega
          have remaining : (encodeFields rest).length ≤ fuel := by omega
          rw [split, readFields, if_neg nonempty, readField_encode]
          simp only [inductionHypothesis remaining]

/-- Reading what was written gives the fields back, to the end of the input. -/
theorem decodeFields_encodeFields (fields : List Field) :
    decodeFields (encodeFields fields) = (true, fields) :=
  readFields_encodeFields fields (Nat.le_refl _)

end Foundation
end ProtobufMq
