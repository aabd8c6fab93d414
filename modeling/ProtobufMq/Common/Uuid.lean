import Mathlib.Tactic.IntervalCases
import Mathlib.Tactic.NormNum
import ProtobufMq.Common.Msg

namespace ProtobufMq

open Foundation

/-!
# `UUIDHelper`

An id is made of eight random bytes and of the number of the call, all written
in base sixteen.  The number comes from a counter of 64 bits, of which eight
groups of two digits are written.  Neighbouring groups start four bits apart,
not eight, so together they say what the lower 36 bits are and nothing more.
-/

/-- A digit in base sixteen. -/
def hexDigit (digit : Nat) : UInt8 :=
  (ascii "0123456789abcdef").getD digit 0

/-- `std::setw(2) << std::setfill('0') << std::hex`, for a number of one byte. -/
def hexPair (number : UInt8) : Bytes :=
  [hexDigit (number.toNat / 16), hexDigit (number.toNat % 16)]

namespace UUIDHelper

/-- The byte between two parts of an id. -/
def dash : Bytes := ascii "-"

/-- The first loop: `random i` is the outcome of the `i`-th draw. -/
def randomPart (random : Nat → UInt8) : Bytes :=
  (List.range 8).flatMap fun i =>
    hexPair (random i) ++ if i = 3 ∨ i = 5 ∨ i = 7 then dash else []

/-- `(num >> (i * 4)) & 0xff`. -/
def group (num : UInt64) (i : Nat) : UInt8 :=
  ((num >>> UInt64.ofNat (i * 4)) &&& 0xff).toUInt8

/-- The second loop, which counts down from seven. -/
def counterPart (num : UInt64) : Bytes :=
  (List.range 8).reverse.flatMap fun i =>
    hexPair (group num i) ++ if i = 6 then dash else []

/-- `UUIDHelper::uuid`, from the value of the counter `seq` on; the second
component is the value it leaves. -/
def uuid (seq : UInt64) (random : Nat → UInt8) : Bytes × UInt64 :=
  (randomPart random ++ counterPart seq, seq + 1)

/-! ## What an id says about the counter -/

/-- A digit is told from its byte. -/
theorem hexDigit_injective {first second : Nat} (firstDigit : first < 16)
    (secondDigit : second < 16) (same : hexDigit first = hexDigit second) : first = second := by
  have all : ∀ first : Fin 16, ∀ second : Fin 16,
      hexDigit first = hexDigit second → first = second := by decide
  exact congrArg Fin.val (all ⟨first, firstDigit⟩ ⟨second, secondDigit⟩ same)

/-- So is a byte from its two digits. -/
theorem hexPair_injective : Function.Injective hexPair := by
  intro first second same
  have bounds := And.intro first.toNat_lt second.toNat_lt
  rcases List.cons.inj same with ⟨high, rest⟩
  have highSame := hexDigit_injective (by omega) (by omega) high
  have lowSame := hexDigit_injective (by omega) (by omega) (List.cons.inj rest).1
  exact UInt8.toNat_inj.mp (by omega)

/-- Pieces of known lengths are told from the text they make. -/
theorem flatMap_inj {α β : Type*} {first second : α → List β} {list : List α}
    (lengths : ∀ item ∈ list, (first item).length = (second item).length)
    (same : list.flatMap first = list.flatMap second) :
    ∀ item ∈ list, first item = second item := by
  induction list with
  | nil =>
      intro item impossible
      cases impossible
  | cons head tail inductionHypothesis =>
      rw [List.forall_mem_cons] at lengths ⊢
      rw [List.flatMap_cons, List.flatMap_cons] at same
      rcases List.append_inj same lengths.1 with ⟨heads, tails⟩
      exact ⟨heads, inductionHypothesis lengths.2 tails⟩

@[simp] theorem length_hexPair (number : UInt8) : (hexPair number).length = 2 := rfl

theorem length_randomPart (random : Nat → UInt8) : (randomPart random).length = 19 := rfl

/-- A group is one byte of the number, taken from four times its index on. -/
theorem toNat_group {i : Nat} (index : i < 8) (num : UInt64) :
    (group num i).toNat = num.toNat / 16 ^ i % 256 := by
  have shift : (UInt64.ofNat (i * 4)).toNat % 64 = 4 * i := by
    rw [UInt64.toNat_ofNat']
    omega
  have base : (2 : Nat) ^ (4 * i) = 16 ^ i := by
    rw [Nat.pow_mul]
  rw [group, UInt64.toNat_toUInt8, UInt64.toNat_and, UInt64.toNat_shiftRight, shift,
    Nat.shiftRight_eq_div_pow, base]
  have mask : (0xff : UInt64).toNat = 2 ^ 8 - 1 := rfl
  rw [mask, Nat.and_two_pow_sub_one_eq_mod, Nat.mod_mod]

/-- The groups together are the lower 36 bits of the number. -/
theorem group_eq_iff (m n : UInt64) :
    (∀ i < 8, group m i = group n i) ↔ m.toNat % 2 ^ 36 = n.toNat % 2 ^ 36 := by
  constructor
  · intro same
    have parts : ∀ i < 8, m.toNat / 16 ^ i % 256 = n.toNat / 16 ^ i % 256 := by
      intro i index
      rw [← toNat_group index, ← toNat_group index, same i index]
    have zero := parts 0 (by decide)
    have two := parts 2 (by decide)
    have four := parts 4 (by decide)
    have six := parts 6 (by decide)
    have seven := parts 7 (by decide)
    norm_num at zero two four six seven ⊢
    omega
  · intro same i index
    apply UInt8.toNat_inj.mp
    rw [toNat_group index, toNat_group index]
    have lower : ∀ number : Nat, number / 16 ^ i % 256 = number % 2 ^ 36 / 16 ^ i % 256 := by
      intro number
      interval_cases i <;> norm_num <;> omega
    rw [lower, lower n.toNat, same]

/-- The written groups tell the groups apart. -/
theorem counterPart_eq_iff (m n : UInt64) :
    counterPart m = counterPart n ↔ ∀ i < 8, group m i = group n i := by
  constructor
  · intro same i index
    have pairs := flatMap_inj (fun i _ => by simp) same i (by simpa using index)
    exact hexPair_injective (List.append_cancel_right pairs)
  · intro same
    unfold counterPart
    apply List.flatMap_congr
    intro i member
    rw [same i (by simpa using member)]

/-- Two ids differ, whatever bytes are drawn for them, exactly if the counters
differ in their lower 36 bits. -/
theorem uuid_ne_iff (m n : UInt64) :
    (∀ random other : Nat → UInt8, (uuid m random).1 ≠ (uuid n other).1) ↔
      m.toNat % 2 ^ 36 ≠ n.toNat % 2 ^ 36 := by
  rw [← not_iff_not, not_not, ← group_eq_iff, ← counterPart_eq_iff]
  constructor
  · intro repeats
    by_contra different
    apply repeats
    intro random other same
    have lengths : (randomPart random).length = (randomPart other).length := by
      rw [length_randomPart, length_randomPart]
    exact different (List.append_inj same lengths).2
  · intro same distinct
    apply distinct (fun _ => 0) (fun _ => 0)
    rw [uuid, uuid, same]

/-- The counter one and the counter 2^36 + 1 may give one id. -/
theorem uuid_repeats :
    ¬ ∀ m n : UInt64, m ≠ n →
      ∀ random other : Nat → UInt8, (uuid m random).1 ≠ (uuid n other).1 := by
  intro never
  apply never 1 (2 ^ 36 + 1) (by decide) (fun _ => 0) (fun _ => 0)
  decide

end UUIDHelper

end ProtobufMq
