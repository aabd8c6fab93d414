import Mathlib.Data.List.Basic

namespace ProtobufMq
namespace Foundation

/-!
# Items in a stream that arrives piece by piece

A receiver keeps the input that it has not used.  After every arrival it takes
items from the front for as long as it finds one, and it gives up at the first
thing that can be no item.  How the stream was cut into arrivals must not
matter, and it does not if a decision about the front of the input is never
changed by input that comes later; a `Scanner` carries that law.

For a stream that was put together from encoded items, every arrival yields the
next of them, up to the one that has not arrived completely.
-/

variable {α ι φ : Type*}

/-! ## Looking at the front -/

/-- What the front of the input shows. -/
inductive Look (ι φ : Type*) where
  /-- Too little to decide. -/
  | short
  | item (item : ι) (size : Nat)
  /-- No item, whatever may follow. -/
  | broken (fault : φ)

/-- A way of looking at the front of an input. -/
structure Scanner (α ι φ : Type*) where
  look : List α → Look ι φ
  look_nil : look [] = .short
  item_size : ∀ {input item size}, look input = .item item size → 0 < size ∧ size ≤ input.length
  item_append : ∀ {input item size}, look input = .item item size →
    ∀ more, look (input ++ more) = .item item size
  broken_append : ∀ {input fault}, look input = .broken fault →
    ∀ more, look (input ++ more) = .broken fault

/-- What came of an input: the items at its front, what stopped the receiver, and
the input that is left. -/
structure Drained (α ι φ : Type*) where
  items : List ι
  fault : Option φ
  rest : List α

/-- What the receiver reports: each item, and then the fault if there is one. -/
def Drained.calls {γ : Type*} (onItem : ι → γ) (onFault : φ → γ) (drained : Drained α ι φ) :
    List γ :=
  drained.items.map onItem ++ (drained.fault.map onFault).toList

namespace Scanner

variable (scanner : Scanner α ι φ)

/-- Take items from the front, at most as many as there is fuel. -/
def drainWith : Nat → List α → Drained α ι φ
  | 0, input => ⟨[], none, input⟩
  | fuel + 1, input =>
      match scanner.look input with
      | .short => ⟨[], none, input⟩
      | .broken fault => ⟨[], some fault, input⟩
      | .item item size =>
          let later := drainWith fuel (input.drop size)
          { later with items := item :: later.items }

/-- Take all the items from the front. -/
def drain (input : List α) : Drained α ι φ :=
  scanner.drainWith input.length input

/-- Keep an arrival, and take the items that are complete. -/
def receive (kept arrival : List α) : Drained α ι φ :=
  scanner.drain (kept ++ arrival)

variable {scanner} {input more : List α} {item : ι} {size fuel : Nat} {fault : φ}

theorem drop_shorter (found : scanner.look input = .item item size) :
    (input.drop size).length < input.length := by
  have bounds := scanner.item_size found
  rw [List.length_drop]
  omega

/-- More fuel than input makes no difference. -/
theorem drainWith_enough (enough : input.length ≤ fuel) :
    scanner.drainWith fuel input = scanner.drain input := by
  unfold drain
  induction fuel using Nat.strongRecOn generalizing input with
  | _ fuel inductionHypothesis =>
      cases fuel with
      | zero => rw [Nat.le_zero.mp enough]
      | succ fuel =>
          cases measured : input.length with
          | zero =>
              rw [List.length_eq_zero_iff.mp measured, drainWith, drainWith, scanner.look_nil]
          | succ length =>
              rw [drainWith, drainWith]
              cases seen : scanner.look input with
              | short => rfl
              | broken fault => rfl
              | item item size =>
                  have shorter := drop_shorter seen
                  have first : scanner.drainWith fuel (input.drop size) = _ :=
                    inductionHypothesis fuel (Nat.lt_succ_self fuel) (by omega)
                  have second : scanner.drainWith length (input.drop size) = _ :=
                    inductionHypothesis length (by omega) (by omega)
                  simp only [first, second]

theorem drain_short (seen : scanner.look input = .short) :
    scanner.drain input = ⟨[], none, input⟩ := by
  rw [← drainWith_enough (Nat.le_succ _), drainWith, seen]

theorem drain_broken (seen : scanner.look input = .broken fault) :
    scanner.drain input = ⟨[], some fault, input⟩ := by
  rw [← drainWith_enough (Nat.le_succ _), drainWith, seen]

theorem drain_item (seen : scanner.look input = .item item size) :
    scanner.drain input =
      { scanner.drain (input.drop size) with
        items := item :: (scanner.drain (input.drop size)).items } := by
  rw [← drainWith_enough (Nat.le_succ _), drainWith, seen]
  simp only [drainWith_enough (Nat.le_of_lt (drop_shorter seen))]

variable (scanner) in
/-- Input is used up from the front, one item after another. -/
theorem drain_induction {motive : List α → Prop} (input : List α)
    (short : ∀ input, scanner.look input = .short → motive input)
    (broken : ∀ input fault, scanner.look input = .broken fault → motive input)
    (step : ∀ input item size, scanner.look input = .item item size →
      motive (input.drop size) → motive input) : motive input := by
  induction length : input.length using Nat.strongRecOn generalizing input with
  | _ length inductionHypothesis =>
      cases seen : scanner.look input with
      | short => exact short input seen
      | broken fault => exact broken input fault seen
      | item item size =>
          have shorter := drop_shorter seen
          exact step input item size seen
            (inductionHypothesis _ (length ▸ shorter) (input.drop size) rfl)

/-! ## What stays behind -/

/-- Without a fault, what is left is too little. -/
theorem look_rest (fine : (scanner.drain input).fault = none) :
    scanner.look (scanner.drain input).rest = .short := by
  induction input using scanner.drain_induction with
  | short input seen => rw [drain_short seen, seen]
  | broken input fault seen =>
      rw [drain_broken seen] at fine
      cases fine
  | step input item size seen inductionHypothesis =>
      rw [drain_item seen] at fine ⊢
      exact inductionHypothesis fine

/-- A fault is at the front of what is left. -/
theorem look_fault (failed : (scanner.drain input).fault = some fault) :
    scanner.look (scanner.drain input).rest = .broken fault := by
  induction input using scanner.drain_induction with
  | short input seen =>
      rw [drain_short seen] at failed
      cases failed
  | broken input other seen =>
      rw [drain_broken seen] at failed ⊢
      cases failed
      exact seen
  | step input item size seen inductionHypothesis =>
      rw [drain_item seen] at failed ⊢
      exact inductionHypothesis failed

/-! ## How the input was cut does not matter -/

/-- Taking items early leaves the later ones as they are. -/
theorem drain_append (input more : List α) :
    scanner.drain (input ++ more) =
      { scanner.receive (scanner.drain input).rest more with
        items := (scanner.drain input).items ++
          (scanner.receive (scanner.drain input).rest more).items } := by
  unfold receive
  induction input using scanner.drain_induction with
  | short input seen =>
      rw [drain_short seen]
      rfl
  | broken input fault seen =>
      rw [drain_broken seen]
      rfl
  | step input item size seen inductionHypothesis =>
      have bounds := scanner.item_size seen
      have dropped : (input ++ more).drop size = input.drop size ++ more :=
        List.drop_append_of_le_length bounds.2
      rw [drain_item (scanner.item_append seen more), dropped, inductionHypothesis, drain_item seen]
      rfl

/-- A receiver that has given up takes nothing from what arrives later. -/
theorem receive_fault (failed : (scanner.drain input).fault = some fault) (more : List α) :
    scanner.receive (scanner.drain input).rest more =
      ⟨[], some fault, (scanner.drain input).rest ++ more⟩ :=
  drain_broken (scanner.broken_append (look_fault failed) more)

variable (scanner) in
/-- What is kept after the arrivals, and the items that each of them brought. -/
def receiveAll : List α → List (List α) → List (Drained α ι φ) × List α
  | kept, [] => ([], kept)
  | kept, arrival :: rest =>
      let drained := scanner.receive kept arrival
      let later := receiveAll drained.rest rest
      (drained :: later.1, later.2)

/-- The items of all arrivals are those of the stream, and so is what is kept. -/
theorem receiveAll_eq (input : List α) (arrivals : List (List α)) :
    (scanner.drain input).items ++
        (scanner.receiveAll (scanner.drain input).rest arrivals).1.flatMap Drained.items =
      (scanner.drain (input ++ arrivals.flatten)).items ∧
    (scanner.receiveAll (scanner.drain input).rest arrivals).2 =
      (scanner.drain (input ++ arrivals.flatten)).rest := by
  induction arrivals generalizing input with
  | nil =>
      rw [List.flatten_nil, List.append_nil, receiveAll, List.flatMap_nil, List.append_nil]
      exact ⟨rfl, rfl⟩
  | cons arrival arrivals inductionHypothesis =>
      have onward := inductionHypothesis (input ++ arrival)
      rw [drain_append, List.append_assoc input] at onward
      rw [List.flatten_cons, receiveAll, List.flatMap_cons, ← List.append_assoc]
      exact onward

/-- After a fault nothing changes but the input that is kept. -/
theorem drain_fault (failed : (scanner.drain input).fault = some fault) (more : List α) :
    scanner.drain (input ++ more) =
      ⟨(scanner.drain input).items, some fault, (scanner.drain input).rest ++ more⟩ := by
  rw [drain_append, receive_fault failed, List.append_nil]

section Calls

variable {γ : Type*} (onItem : ι → γ) (onFault : φ → γ)

/-- After a fault every arrival is met with that fault, and with nothing else. -/
theorem receiveAll_fault (failed : (scanner.drain input).fault = some fault)
    (arrivals : List (List α)) :
    (scanner.receiveAll (scanner.drain input).rest arrivals).1.map (Drained.calls onItem onFault) =
      List.replicate arrivals.length [onFault fault] := by
  induction arrivals generalizing input with
  | nil => rfl
  | cons arrival arrivals inductionHypothesis =>
      have whole := drain_fault failed arrival
      have onward := inductionHypothesis (congrArg Drained.fault whole)
      rw [whole] at onward
      rw [receiveAll, receive_fault failed, List.map_cons, onward]
      rfl

/-- The reports do not depend on how the stream was cut, but for the number of
times that a fault is reported. -/
theorem receiveAll_calls (fine : (scanner.drain input).fault = none) (arrivals : List (List α)) :
    ∃ times, 0 < times ∧
      (scanner.drain input).items.map onItem ++
          ((scanner.receiveAll (scanner.drain input).rest arrivals).1.map
            (Drained.calls onItem onFault)).flatten =
        (scanner.drain (input ++ arrivals.flatten)).items.map onItem ++
          (List.replicate times
            ((scanner.drain (input ++ arrivals.flatten)).fault.map onFault).toList).flatten := by
  induction arrivals generalizing input with
  | nil =>
      refine ⟨1, Nat.one_pos, ?_⟩
      rw [List.flatten_nil, List.append_nil, fine]
      rfl
  | cons arrival arrivals inductionHypothesis =>
      have drained : scanner.drain (input ++ arrival) = _ := drain_append input arrival
      rw [List.flatten_cons, ← List.append_assoc, receiveAll, List.map_cons, List.flatten_cons,
        Drained.calls, ← List.append_assoc, ← List.append_assoc, ← List.map_append]
      cases failed : (scanner.receive (scanner.drain input).rest arrival).fault with
      | none =>
          have now : (scanner.drain (input ++ arrival)).fault = none := by
            rw [drained]
            exact failed
          rcases inductionHypothesis now with ⟨times, positive, same⟩
          refine ⟨times, positive, ?_⟩
          rw [← same, drained, Option.map_none, Option.toList_none, List.append_nil]
      | some fault =>
          -- every later arrival adds one more report of the fault
          have now : (scanner.drain (input ++ arrival)).fault = some fault := by
            rw [drained]
            exact failed
          have later := receiveAll_fault onItem onFault now arrivals
          refine ⟨arrivals.length + 1, Nat.succ_pos _, ?_⟩
          rw [drained] at later
          rw [drain_fault now, drained, later, List.replicate_succ, List.flatten_cons, List.append_assoc]
          rfl

end Calls

/-- An arrival is met with a fault if the stream up to there has one. -/
theorem receiveAll_fault_at {arrivals : List (List α)} {index : Nat} {drained : Drained α ι φ}
    (received : (scanner.receiveAll (scanner.drain input).rest arrivals).1[index]? = some drained) :
    drained.fault = (scanner.drain (input ++ (arrivals.take (index + 1)).flatten)).fault := by
  induction arrivals generalizing input index with
  | nil => cases received
  | cons arrival arrivals inductionHypothesis =>
      rw [receiveAll] at received
      have whole := @drain_append _ _ _ scanner input arrival
      cases index with
      | zero =>
          cases received
          rw [List.take_succ_cons, List.take_zero, List.flatten_cons, List.flatten_nil,
            List.append_nil, whole]
      | succ index =>
          rw [List.take_succ_cons, List.flatten_cons, ← List.append_assoc]
          refine inductionHypothesis ?_
          rw [whole]
          exact received

/-! ## Streams of encoded items -/

section Encoded

variable {encode : ι → List α}

variable (scanner encode) in
/-- The scanner finds the item at the front of its encoding. -/
def Finds (item : ι) : Prop :=
  ∀ more, scanner.look (encode item ++ more) = .item item (encode item).length

/-- Encoded items are taken from the front of a stream. -/
theorem drain_encoded {items : List ι} (found : ∀ item ∈ items, scanner.Finds encode item)
    (tail : List α) :
    scanner.drain (items.flatMap encode ++ tail) =
      { scanner.drain tail with items := items ++ (scanner.drain tail).items } := by
  induction items with
  | nil => rfl
  | cons item items inductionHypothesis =>
      rw [List.forall_mem_cons] at found
      rw [List.flatMap_cons, List.append_assoc, drain_item (found.1 _), List.drop_left,
        inductionHypothesis found.2]
      rfl

/-- An encoded item at the front that is not seen has not arrived completely. -/
theorem begun_shorter {next : ι} {tail : List α} (found : scanner.Finds encode next)
    (begun : input ++ more = encode next ++ tail) (seen : scanner.look input = .short) :
    input.length < (encode next).length := by
  by_contra reached
  have arrived : encode next <+: input :=
    List.prefix_of_prefix_length_le ⟨tail, begun.symm⟩ ⟨more, rfl⟩ (Nat.le_of_not_lt reached)
  rcases arrived with ⟨rest, rfl⟩
  rw [found rest] at seen
  cases seen

/-- What arrived of a stream of encoded items yields the first of them, and
leaves the encoding of the others. -/
theorem drain_begun {items : List ι} (found : ∀ item ∈ items, scanner.Finds encode item)
    (begun : input ++ more = items.flatMap encode) :
    ∃ later, items = (scanner.drain input).items ++ later ∧
      (scanner.drain input).fault = none ∧
      (scanner.drain input).rest ++ more = later.flatMap encode := by
  induction input using scanner.drain_induction generalizing items with
  | short input seen =>
      rw [drain_short seen]
      exact ⟨items, rfl, rfl, begun⟩
  | broken input fault seen =>
      exfalso
      have whole := scanner.broken_append seen more
      rw [begun] at whole
      cases items with
      | nil =>
          rw [List.flatMap_nil, scanner.look_nil] at whole
          cases whole
      | cons item items =>
          rw [List.flatMap_cons, found item List.mem_cons_self _] at whole
          cases whole
  | step input first size seen inductionHypothesis =>
      have whole := scanner.item_append seen more
      have bounds := scanner.item_size seen
      rw [begun] at whole
      cases items with
      | nil =>
          rw [List.flatMap_nil, scanner.look_nil] at whole
          cases whole
      | cons item items =>
          rw [List.forall_mem_cons] at found
          rw [List.flatMap_cons, found.1 _] at whole
          cases whole
          have onward : input.drop (encode first).length ++ more = items.flatMap encode := by
            rw [← List.drop_append_of_le_length bounds.2, begun, List.flatMap_cons, List.drop_left]
          rcases inductionHypothesis found.2 onward with ⟨later, split, fine, left⟩
          rw [drain_item seen]
          exact ⟨later, congrArg (first :: ·) split, fine, left⟩

/-- A stream of encoded items has no fault before the end of the first thing that can be no
item, and that one from there on. -/
theorem drain_fault_iff {items : List ι} (found : ∀ item ∈ items, scanner.Finds encode item)
    {bad tail : List α} (breaks : ∀ more, scanner.look (bad ++ more) = .broken fault)
    (waits : ∀ front back, front ++ back = bad → back ≠ [] → scanner.look front = .short)
    (begun : input ++ more = items.flatMap encode ++ (bad ++ tail)) :
    (scanner.drain input).fault =
      if (items.flatMap encode ++ bad).length ≤ input.length then some fault else none := by
  rcases List.append_eq_append_iff.mp begun with ⟨within, whole, later⟩ | ⟨beyond, whole, later⟩
  · rcases drain_begun found whole.symm with ⟨_, _, fine, _⟩
    have positive : bad ≠ [] := by
      rintro rfl
      have nothing := breaks []
      rw [List.append_nil, scanner.look_nil] at nothing
      cases nothing
    have short : ¬(items.flatMap encode ++ bad).length ≤ input.length := by
      have size := List.length_pos_iff.mpr positive
      rw [whole, List.length_append, List.length_append]
      omega
    rw [fine, if_neg short]
  · have drained := drain_encoded found beyond
    rw [← whole] at drained
    rw [drained, whole, List.length_append, List.length_append]
    simp only [Nat.add_le_add_iff_left]
    by_cases complete : bad.length ≤ beyond.length
    · have arrived : bad <+: beyond :=
        List.prefix_of_prefix_length_le ⟨tail, later⟩ ⟨more, rfl⟩ complete
      rcases arrived with ⟨rest, rfl⟩
      rw [if_pos complete, drain_broken (breaks rest)]
    · have unfinished : beyond <+: bad :=
        List.prefix_of_prefix_length_le ⟨more, rfl⟩ ⟨tail, later⟩ (by omega)
      rcases unfinished with ⟨rest, joined⟩
      have missing : rest ≠ [] := by
        rintro rfl
        rw [List.append_nil] at joined
        exact complete (joined ▸ Nat.le_refl _)
      rw [if_neg complete, drain_short (waits beyond rest joined missing)]

end Encoded

end Scanner

end Foundation
end ProtobufMq
