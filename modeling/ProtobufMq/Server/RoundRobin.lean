import Mathlib.Data.List.Rotate
import ProtobufMq.Server.Consumer

namespace ProtobufMq

open Foundation

/-!
# Every consumer has its turn

A unit counts the calls of `choose` and not the consumers, so a round may begin
at any of them.  As long as the count does not wrap, as many calls as there are
consumers go once around: what they return is the list of the consumers, begun
elsewhere.  Nobody is met twice on the way because the tags are distinct, which
`create` sees to.
-/

namespace QueueConsumer

/-- A call on a unit. -/
inductive Call where
  | create (consumer : Consumer)
  | remove (ctag : Bytes)
  | choose
  | clear

/-- The unit after a call. -/
def perform (unit : QueueConsumer) : Call → QueueConsumer
  | .create consumer => (unit.create consumer).2
  | .remove ctag => unit.remove ctag
  | .choose => unit.choose.2
  | .clear => unit.clear

/-- No two consumers have one tag. -/
def TagsDistinct (unit : QueueConsumer) : Prop :=
  (unit.consumers.map Consumer.tag).Nodup

/-- `create` looks at the tags before it adds one. -/
theorem tagsDistinct_create {unit : QueueConsumer} (distinct : unit.TagsDistinct)
    (consumer : Consumer) : (unit.create consumer).2.TagsDistinct := by
  rcases unit.create_cases consumer with ⟨_, _, _, refused⟩ | ⟨free, joined⟩
  · rw [refused]
    exact distinct
  · rw [joined]
    unfold TagsDistinct
    rw [List.map_append, List.map_singleton, ← List.concat_eq_append]
    apply List.Nodup.concat _ distinct
    intro taken
    rcases List.mem_map.mp taken with ⟨other, member, same⟩
    exact free other member same

theorem tagsDistinct_perform {unit : QueueConsumer} (distinct : unit.TagsDistinct)
    (call : Call) : (unit.perform call).TagsDistinct := by
  cases call with
  | create consumer => exact tagsDistinct_create distinct consumer
  | remove ctag => exact distinct.sublist (List.eraseP_sublist.map Consumer.tag)
  | choose =>
      unfold TagsDistinct perform
      rw [choose_consumers]
      exact distinct
  | clear => exact List.nodup_nil

/-- The tags of a unit are distinct whatever was done to it. -/
theorem tagsDistinct_performs (calls : List Call) {unit : QueueConsumer}
    (distinct : unit.TagsDistinct) : (calls.foldl perform unit).TagsDistinct := by
  induction calls generalizing unit with
  | nil => exact distinct
  | cons call rest inductionHypothesis =>
      exact inductionHypothesis (tagsDistinct_perform distinct call)

/-! ## Rounds -/

/-- What the next calls of `choose` return. -/
def turns (unit : QueueConsumer) : Nat → List (Option Consumer)
  | 0 => []
  | count + 1 => unit.choose.1 :: unit.choose.2.turns count

/-- The unit once `choose` has been called so many times. -/
def afterTurns (unit : QueueConsumer) : Nat → QueueConsumer
  | 0 => unit
  | count + 1 => unit.choose.2.afterTurns count

theorem turns_add (unit : QueueConsumer) (first second : Nat) :
    unit.turns (first + second) =
      unit.turns first ++ (unit.afterTurns first).turns second := by
  induction first generalizing unit with
  | zero => rw [Nat.zero_add, turns, afterTurns, List.nil_append]
  | succ first inductionHypothesis =>
      rw [Nat.succ_add, turns, turns, afterTurns, inductionHypothesis, List.cons_append]

section Rounds

variable {unit : QueueConsumer}

/-- Before the count wraps, each call moves it on by one and nothing else. -/
theorem choose_of_some {unit : QueueConsumer} (somebody : 0 < unit.consumers.length)
    (room : unit.rrSeq + 1 < 2 ^ 64) :
    unit.choose =
      (unit.consumers[unit.rrSeq % unit.consumers.length]?,
        { unit with rrSeq := unit.rrSeq + 1 }) := by
  rw [choose, if_neg (Nat.ne_of_gt somebody), Nat.mod_eq_of_lt room]

theorem afterTurns_eq (somebody : 0 < unit.consumers.length) {count : Nat}
    (room : unit.rrSeq + count < 2 ^ 64) :
    unit.afterTurns count = { unit with rrSeq := unit.rrSeq + count } := by
  induction count generalizing unit with
  | zero => rfl
  | succ count inductionHypothesis =>
      have one : unit.rrSeq + 1 < 2 ^ 64 := by omega
      have next : unit.choose.2 = { unit with rrSeq := unit.rrSeq + 1 } := by
        rw [choose_of_some somebody one]
      have rest : unit.choose.2.rrSeq + count < 2 ^ 64 := by
        rw [next]
        simp only
        omega
      rw [afterTurns, inductionHypothesis (by rwa [choose_consumers]) rest, next]
      simp only [Nat.add_assoc, Nat.add_comm 1]

/-- The call after `count` others returns the consumer that many places on. -/
theorem turns_eq (somebody : 0 < unit.consumers.length) {count : Nat}
    (room : unit.rrSeq + count < 2 ^ 64) :
    unit.turns count = (List.range count).map fun i =>
      unit.consumers[(i + unit.rrSeq) % unit.consumers.length]? := by
  induction count with
  | zero => rfl
  | succ count inductionHypothesis =>
      have before : unit.rrSeq + count < 2 ^ 64 := by omega
      have reached : (unit.afterTurns count) = { unit with rrSeq := unit.rrSeq + count } :=
        afterTurns_eq somebody before
      have last : (unit.afterTurns count).turns 1 =
          [unit.consumers[(count + unit.rrSeq) % unit.consumers.length]?] := by
        rw [reached, turns, turns,
          @choose_of_some { unit with rrSeq := unit.rrSeq + count } somebody room,
          Nat.add_comm count]
      rw [turns_add, inductionHypothesis before, last, List.range_succ, List.map_append,
        List.map_singleton]

/-- A round is the list of the consumers, begun elsewhere. -/
theorem turns_round (somebody : 0 < unit.consumers.length)
    (room : unit.rrSeq + unit.consumers.length < 2 ^ 64) :
    unit.turns unit.consumers.length = (unit.consumers.rotate unit.rrSeq).map some := by
  rw [turns_eq somebody room]
  apply List.ext_getElem?
  intro i
  rw [List.getElem?_map, List.getElem?_map]
  by_cases within : i < unit.consumers.length
  · have place : (i + unit.rrSeq) % unit.consumers.length < unit.consumers.length :=
      Nat.mod_lt _ somebody
    rw [List.getElem?_range within, List.getElem?_rotate within, Option.map_some,
      List.getElem?_eq_getElem place, Option.map_some]
  · rw [List.getElem?_eq_none (by simpa using within),
      List.getElem?_eq_none (by simpa using within), Option.map_none, Option.map_none]

/-- In a round everybody has one turn. -/
theorem count_round (distinct : unit.TagsDistinct)
    (room : unit.rrSeq + unit.consumers.length < 2 ^ 64) {consumer : Consumer}
    (member : consumer ∈ unit.consumers) :
    (unit.turns unit.consumers.length).count (some consumer) = 1 := by
  rw [turns_round (List.length_pos_of_mem member) room]
  apply List.count_eq_one_of_mem
  · apply List.Nodup.map (Option.some_injective _)
    exact List.nodup_rotate.mpr (List.Nodup.of_map _ distinct)
  · exact List.mem_map_of_mem (List.mem_rotate.mpr member)

/-- In `rounds` rounds everybody has as many turns. -/
theorem count_rounds (distinct : unit.TagsDistinct) {rounds : Nat}
    (room : unit.rrSeq + rounds * unit.consumers.length < 2 ^ 64) {consumer : Consumer}
    (member : consumer ∈ unit.consumers) :
    (unit.turns (rounds * unit.consumers.length)).count (some consumer) = rounds := by
  induction rounds with
  | zero => rw [Nat.zero_mul, turns, List.count_nil]
  | succ rounds inductionHypothesis =>
      rw [Nat.succ_mul] at room ⊢
      have before : unit.rrSeq + rounds * unit.consumers.length < 2 ^ 64 := by omega
      have last := @count_round
        { unit with rrSeq := unit.rrSeq + rounds * unit.consumers.length }
        distinct (by simp only; omega) consumer member
      rw [turns_add, List.count_append, inductionHypothesis before,
        afterTurns_eq (List.length_pos_of_mem member) before, last]

end Rounds

/-- A call finds nobody exactly when there is nobody. -/
theorem choose_eq_none_iff (unit : QueueConsumer) :
    unit.choose.1 = none ↔ unit.consumers = [] := by
  constructor
  · intro nobody
    by_contra somebody
    rcases choose_eq_some somebody with ⟨consumer, chosen, _⟩
    rw [nobody] at chosen
    cases chosen
  · intro nobody
    rw [choose_of_empty nobody]

/-- Whatever was done to a unit, its tags are distinct, every number of whole
rounds gives everybody that many turns, and nobody is chosen only if there is
nobody. -/
theorem choose_fair (qname : Bytes) (calls : List Call) (unit : QueueConsumer)
    (reached : unit = calls.foldl perform { qname := qname }) :
    (unit.consumers.map Consumer.tag).Nodup ∧
    (∀ k, 0 < unit.consumers.length → unit.consumers.length < 2 ^ 31 →
      unit.rrSeq + k * unit.consumers.length < 2 ^ 64 →
      ∀ consumer ∈ unit.consumers,
        (unit.turns (k * unit.consumers.length)).count (some consumer) = k) ∧
    (unit.choose.1 = none ↔ unit.consumers = []) := by
  have distinct : unit.TagsDistinct := by
    rw [reached]
    exact tagsDistinct_performs calls List.nodup_nil
  refine ⟨distinct, ?_, choose_eq_none_iff unit⟩
  intro k _ _ room consumer member
  exact count_rounds distinct room member

/-- Two consumers, of whom the first has had a turn. -/
def twoAtWork : List Call :=
  [.create ⟨0, ascii "a", ascii "q", true, 0⟩, .create ⟨1, ascii "b", ascii "q", true, 0⟩,
    .choose]

/-- In the six calls that follow each of the two has three turns. -/
theorem twoAtWork_fair :
    ((twoAtWork.foldl perform { qname := ascii "q" }).turns 6).count
        (some ⟨0, ascii "a", ascii "q", true, 0⟩) = 3 ∧
      ((twoAtWork.foldl perform { qname := ascii "q" }).turns 6).count
        (some ⟨1, ascii "b", ascii "q", true, 0⟩) = 3 := by
  have turnsOf := (choose_fair (ascii "q") twoAtWork _ rfl).2.1 3 (by decide) (by decide)
    (by decide)
  exact ⟨turnsOf _ (by decide), turnsOf _ (by decide)⟩

end QueueConsumer

end ProtobufMq
