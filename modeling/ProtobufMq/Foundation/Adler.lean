import ProtobufMq.Foundation.Framing

namespace ProtobufMq
namespace Foundation

/-!
# The Adler-32 checksum

Two sums are taken modulo the largest prime below two to the sixteenth: of the
bytes, starting at one, and of the values that the first sum takes on the way.
The checksum has the second sum in its upper half and the first in its lower.

A difference that a byte makes to the sums is smaller than the modulus and is
never taken back by bytes that follow.  So an exchange of one byte for another,
or of two neighbours for each other, always changes the checksum.
-/

namespace Adler

/-- The modulus of the sums. -/
def modulus : Nat := 65521

/-- The two sums. -/
structure Sums where
  low : Nat
  high : Nat
  deriving DecidableEq, Repr

namespace Sums

/-- One byte more. -/
def add (sums : Sums) (byte : UInt8) : Sums :=
  let low := (sums.low + byte.toNat) % modulus
  ⟨low, (sums.high + low) % modulus⟩

/-- Some bytes more. -/
def addAll (sums : Sums) (bytes : Bytes) : Sums :=
  bytes.foldl add sums

/-- Both sums are reduced. -/
def Reduced (sums : Sums) : Prop :=
  sums.low < modulus ∧ sums.high < modulus

theorem reduced_add (sums : Sums) (byte : UInt8) : (sums.add byte).Reduced :=
  ⟨Nat.mod_lt _ (by decide), Nat.mod_lt _ (by decide)⟩

theorem reduced_addAll {sums : Sums} (reduced : sums.Reduced) (bytes : Bytes) :
    (sums.addAll bytes).Reduced := by
  induction bytes generalizing sums with
  | nil => exact reduced
  | cons byte rest inductionHypothesis => exact inductionHypothesis (reduced_add sums byte)

theorem addAll_append (sums : Sums) (first second : Bytes) :
    sums.addAll (first ++ second) = (sums.addAll first).addAll second :=
  List.foldl_append

/-- A byte does not take back a difference of the low sums. -/
theorem low_add_ne {first second : Sums} (firstReduced : first.Reduced)
    (secondReduced : second.Reduced) (differ : first.low ≠ second.low) (byte : UInt8) :
    (first.add byte).low ≠ (second.add byte).low := by
  have small := byte.toNat_lt
  rcases firstReduced with ⟨firstLow, -⟩
  rcases secondReduced with ⟨secondLow, -⟩
  unfold modulus at firstLow secondLow
  simp only [add, modulus]
  omega

theorem low_addAll_ne {first second : Sums} (firstReduced : first.Reduced)
    (secondReduced : second.Reduced) (differ : first.low ≠ second.low) (bytes : Bytes) :
    (first.addAll bytes).low ≠ (second.addAll bytes).low := by
  induction bytes generalizing first second with
  | nil => exact differ
  | cons byte rest inductionHypothesis =>
      exact inductionHypothesis (reduced_add first byte) (reduced_add second byte)
        (low_add_ne firstReduced secondReduced differ byte)

/-- Nor one of the high sums, when the low sums are the same. -/
theorem high_add_ne {first second : Sums} (firstReduced : first.Reduced)
    (secondReduced : second.Reduced) (same : first.low = second.low)
    (differ : first.high ≠ second.high) (byte : UInt8) :
    (first.add byte).low = (second.add byte).low ∧ (first.add byte).high ≠ (second.add byte).high := by
  rcases firstReduced with ⟨-, firstHigh⟩
  rcases secondReduced with ⟨-, secondHigh⟩
  unfold modulus at firstHigh secondHigh
  simp only [add, modulus, same, true_and]
  omega

theorem high_addAll_ne {first second : Sums} (firstReduced : first.Reduced)
    (secondReduced : second.Reduced) (same : first.low = second.low)
    (differ : first.high ≠ second.high) (bytes : Bytes) :
    (first.addAll bytes).high ≠ (second.addAll bytes).high := by
  induction bytes generalizing first second with
  | nil => exact differ
  | cons byte rest inductionHypothesis =>
      have onward := high_add_ne firstReduced secondReduced same differ byte
      exact inductionHypothesis (reduced_add first byte) (reduced_add second byte) onward.1 onward.2

/-- Different bytes make different low sums. -/
theorem low_add_byte_ne {sums : Sums} (reduced : sums.Reduced) {first second : UInt8}
    (differ : first ≠ second) : (sums.add first).low ≠ (sums.add second).low := by
  have numbers : first.toNat ≠ second.toNat := fun same => differ (UInt8.toNat_inj.mp same)
  have firstSmall := first.toNat_lt
  have secondSmall := second.toNat_lt
  have low := reduced.1
  unfold modulus at low
  simp only [add, modulus]
  omega

/-- Exchanging two neighbours leaves the low sum and changes the high one. -/
theorem add_swap {sums : Sums} (reduced : sums.Reduced) {first second : UInt8}
    (differ : first ≠ second) :
    ((sums.add first).add second).low = ((sums.add second).add first).low ∧
      ((sums.add first).add second).high ≠ ((sums.add second).add first).high := by
  have numbers : first.toNat ≠ second.toNat := fun same => differ (UInt8.toNat_inj.mp same)
  have firstSmall := first.toNat_lt
  have secondSmall := second.toNat_lt
  rcases reduced with ⟨low, high⟩
  unfold modulus at low high
  simp only [add, modulus]
  constructor <;> omega

end Sums

/-- The sums of no bytes. -/
def start : Sums := ⟨1, 0⟩

theorem reduced_start : start.Reduced := ⟨by decide, by decide⟩

/-- The checksum of some bytes. -/
def checksum (bytes : Bytes) : Nat :=
  let sums := start.addAll bytes
  sums.high * 65536 + sums.low

theorem reduced_sums (bytes : Bytes) : (start.addAll bytes).Reduced :=
  Sums.reduced_addAll reduced_start bytes

theorem checksum_lt (bytes : Bytes) : checksum bytes < 2 ^ 32 := by
  have bounds := reduced_sums bytes
  unfold Sums.Reduced modulus at bounds
  simp only [checksum]
  omega

/-- Different sums have different checksums. -/
theorem checksum_ne {first second : Bytes}
    (differ : (start.addAll first).low ≠ (start.addAll second).low ∨
      (start.addAll first).high ≠ (start.addAll second).high) :
    checksum first ≠ checksum second := by
  have firstBounds := reduced_sums first
  have secondBounds := reduced_sums second
  unfold Sums.Reduced modulus at firstBounds secondBounds
  simp only [checksum]
  omega

/-- An exchange of one byte for another is noticed. -/
theorem checksum_substitution (before after : Bytes) {first second : UInt8}
    (differ : first ≠ second) :
    checksum (before ++ first :: after) ≠ checksum (before ++ second :: after) := by
  have there := reduced_sums before
  apply checksum_ne
  left
  rw [Sums.addAll_append, Sums.addAll_append]
  exact Sums.low_addAll_ne (Sums.reduced_add _ _) (Sums.reduced_add _ _)
    (Sums.low_add_byte_ne there differ) after

/-- An exchange of the last byte for another changes the lower half. -/
theorem checksum_low_ne (before : Bytes) {first second : UInt8} (differ : first ≠ second) :
    checksum (before ++ [first]) % 65536 ≠ checksum (before ++ [second]) % 65536 := by
  have low := Sums.low_add_byte_ne (reduced_sums before) differ
  have firstBounds := (Sums.reduced_add (start.addAll before) first).1
  have secondBounds := (Sums.reduced_add (start.addAll before) second).1
  unfold modulus at firstBounds secondBounds
  simp only [checksum, Sums.addAll_append]
  change (((start.addAll before).add first).high * 65536 + ((start.addAll before).add first).low) %
    65536 ≠ (((start.addAll before).add second).high * 65536 +
      ((start.addAll before).add second).low) % 65536
  omega

/-- An exchange of two neighbours for each other is noticed. -/
theorem checksum_transposition (before after : Bytes) {first second : UInt8}
    (differ : first ≠ second) :
    checksum (before ++ first :: second :: after) ≠
      checksum (before ++ second :: first :: after) := by
  have swapped := Sums.add_swap (reduced_sums before) differ
  apply checksum_ne
  right
  rw [Sums.addAll_append, Sums.addAll_append]
  exact Sums.high_addAll_ne (Sums.reduced_add _ _) (Sums.reduced_add _ _) swapped.1 swapped.2 after

example : checksum [97, 98, 99] = 0x024D0127 := by decide

end Adler

end Foundation
end ProtobufMq
