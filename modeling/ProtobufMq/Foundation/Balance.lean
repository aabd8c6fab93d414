import Mathlib.Algebra.BigOperators.Group.List.Basic
import ProtobufMq.Foundation.Registry
import ProtobufMq.Foundation.Specification

namespace ProtobufMq
namespace Foundation

/-!
# Books that balance

What a component holds is counted in a commutative monoid, for instance in the
multisets of some things.  If in each step what was held and what comes in make up
what is held then and what goes out, they do so over a run.

What is held is often the sum over the objects of a registry, or over a list of
things that each have something in hand; a step then changes one summand.
-/

variable {σ ε φ μ : Type*} [AddCommMonoid μ]

/-! ## Sums of which one term changes -/

/-- The term that is replaced leaves the sum, and the other one joins it. -/
theorem sum_set {items : List μ} {index : Nat} {old : μ} (there : items[index]? = some old)
    (new : μ) : (items.set index new).sum + old = items.sum + new := by
  induction items generalizing index with
  | nil => cases there
  | cons first rest inductionHypothesis =>
      cases index with
      | zero =>
          cases there
          rw [List.set_cons_zero, List.sum_cons, List.sum_cons, add_right_comm, add_comm new,
            add_right_comm]
      | succ index =>
          rw [List.set_cons_succ, List.sum_cons, List.sum_cons, add_assoc, add_assoc,
            inductionHypothesis there]

section Objects

variable {κ ν : Type*} [DecidableEq κ] {registry : Registry κ ν} {holds : ν → μ}

/-- What the objects of a registry hold together. -/
def Registry.total (holds : ν → μ) (registry : Registry κ ν) : μ :=
  (registry.objects.map holds).sum

/-- What the object behind a reference holds. -/
def Registry.part (holds : ν → μ) (registry : Registry κ ν) (reference : Nat) : μ :=
  ((registry.object reference).map holds).getD 0

namespace Registry

theorem part_of_object {reference : Nat} {value : ν}
    (there : registry.object reference = some value) :
    registry.part holds reference = holds value := by
  rw [part, there]
  rfl

theorem total_register (name : κ) (value : ν) :
    (registry.register name value).total holds = registry.total holds + holds value := by
  change ((registry.objects ++ [value]).map holds).sum = _
  rw [List.map_append, List.sum_append, List.map_singleton, List.sum_singleton]
  rfl

theorem total_update {reference : Nat} {value : ν} (there : registry.object reference = some value)
    (later : ν) :
    (registry.update reference later).total holds + holds value =
      registry.total holds + holds later := by
  change ((registry.objects.set reference later).map holds).sum + _ = _
  rw [List.map_set]
  refine sum_set ?_ _
  rw [List.getElem?_map]
  exact congrArg (Option.map holds) there

end Registry

end Objects

section Hands

variable {α : Type*} {items : List α} {hand other : Nat → α → μ}

/-- What the members of a list have in hand together. -/
def inHands (hand : Nat → α → μ) (items : List α) : μ :=
  (items.mapIdx hand).sum

/-- A new member has only its own. -/
theorem inHands_concat (hand : Nat → α → μ) (items : List α) (item : α) :
    inHands hand (items ++ [item]) = inHands hand items + hand items.length item := by
  rw [inHands, List.mapIdx_append, List.sum_append]
  simp only [List.mapIdx_cons, List.mapIdx_nil, List.sum_singleton, zero_add]
  rfl

/-- One member has something else in hand. -/
theorem inHands_update {index : Nat} {item : α} (there : items[index]? = some item)
    (same : ∀ place, place ≠ index → other place = hand place) :
    inHands other items + hand index item = inHands hand items + other index item := by
  have changed : items.mapIdx other = (items.mapIdx hand).set index (other index item) := by
    refine List.ext_getElem? fun place => ?_
    rw [List.getElem?_mapIdx, List.getElem?_set]
    by_cases here : index = place
    · subst here
      have within : index < (items.mapIdx hand).length := by
        rw [List.length_mapIdx]
        exact (List.getElem?_eq_some_iff.mp there).1
      rw [if_pos rfl, if_pos within, there]
      rfl
    · rw [if_neg here, List.getElem?_mapIdx, same place (Ne.symm here)]
  rw [inHands, changed]
  refine sum_set ?_ _
  rw [List.getElem?_mapIdx, there]
  rfl

end Hands

/-! ## Runs -/

section Runs

variable {step : σ → ε → Except φ σ}

/-- What the steps of a run come to. -/
def tally (step : σ → ε → Except φ σ) (amount : σ → ε → μ) : σ → List ε → μ
  | _, [] => 0
  | state, event :: rest =>
      amount state event +
        match step state event with
        | .error _ => 0
        | .ok next => tally step amount next rest

theorem tally_cons {amount : σ → ε → μ} {state next : σ} {event : ε} {rest : List ε}
    (stepped : step state event = .ok next) :
    tally step amount state (event :: rest) = amount state event + tally step amount next rest := by
  rw [tally, stepped]

theorem tally_add (first second : σ → ε → μ) (state : σ) (events : List ε) :
    tally step (fun state event => first state event + second state event) state events =
      tally step first state events + tally step second state events := by
  induction events generalizing state with
  | nil => exact (add_zero 0).symm
  | cons event rest inductionHypothesis =>
      rw [tally, tally, tally]
      cases step state event with
      | error fault =>
          simp only [add_zero]
      | ok next =>
          simp only [inductionHypothesis next]
          exact add_add_add_comm ..

/-- Books that balance in every step balance over a run. -/
theorem balance_of_run {invariant : σ → Prop} {stock : σ → μ} {gains losses : σ → ε → μ}
    (preserved : ∀ {state event next}, invariant state → step state event = .ok next →
      invariant next)
    (balanced : ∀ {state event next}, invariant state → step state event = .ok next →
      stock next + losses state event = stock state + gains state event)
    {state final : σ} {events : List ε} (start : invariant state)
    (completes : run step state events = .ok final) :
    stock final + tally step losses state events = stock state + tally step gains state events := by
  induction events generalizing state with
  | nil =>
      cases completes
      rfl
  | cons event rest inductionHypothesis =>
      rcases run_cons_inv completes with ⟨next, stepped, continued⟩
      have later := inductionHypothesis (preserved start stepped) continued
      rw [tally_cons stepped, tally_cons stepped]
      calc stock final + (losses state event + tally step losses next rest)
          = stock final + tally step losses next rest + losses state event := by
            rw [add_comm (losses state event), add_assoc]
        _ = stock next + losses state event + tally step gains next rest := by
            rw [later, add_right_comm]
        _ = stock state + (gains state event + tally step gains next rest) := by
            rw [balanced start stepped, add_assoc]

/-- What a run takes up comes to what its items are worth. -/
theorem tally_takenUp {ι : Type*} (takes : σ → ε → Option ι) (worth : ι → μ) (state : σ)
    (events : List ε) :
    tally step (fun state event => ((takes state event).map worth).getD 0) state events =
      ((takenUp step takes state events).map worth).sum := by
  induction events generalizing state with
  | nil => rfl
  | cons event rest inductionHypothesis =>
      rw [tally, takenUp, List.map_append, List.sum_append]
      refine congrArg₂ (· + ·) ?_ ?_
      · cases takes state event with
        | none => rfl
        | some item => exact (List.sum_singleton).symm
      · cases step state event with
        | error fault => rfl
        | ok next => exact inductionHypothesis next

end Runs

end Foundation
end ProtobufMq
