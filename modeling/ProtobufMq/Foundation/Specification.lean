import ProtobufMq.Foundation.Run

namespace ProtobufMq
namespace Foundation

/-!
# Components and what they are allowed to show

A component takes something up in some of its steps, and works on it in others.
A specification says, from a state of its own, what may be shown for that and how
it goes on.  The component conforms to the specification if what it takes up is
allowed in some state of the specification that belongs to its own; then so is
what it takes up in a run.
-/

variable {σ τ ε φ ο ι : Type*}

/-- What the steps of a run take up, where each takes up one thing or nothing. -/
def takenUp (step : σ → ε → Except φ σ) (takes : σ → ε → Option ι) : σ → List ε → List ι
  | _, [] => []
  | state, event :: rest =>
      (takes state event).toList ++
        match step state event with
        | .error _ => []
        | .ok next => takenUp step takes next rest

/-- The specification allows a run to show this. -/
inductive Allowed (allows : τ → ε → ο → τ → Prop) : τ → List ε → List ο → τ → Prop where
  | nil (state : τ) : Allowed allows state [] [] state
  | cons {state next final : τ} {event : ε} {rest : List ε} {shown : ο} {later : List ο}
      (first : allows state event shown next) (onward : Allowed allows next rest later final) :
      Allowed allows state (event :: rest) (shown :: later) final

/-- A component that takes up an event in one step, and works on it in others, is
related to the state in which its specification has done with all that was taken
up, and to what was to be shown until then. -/
theorem allowed_of_run {work : σ → ε → Except φ σ} {takes : σ → ε → Option ι}
    {permits : τ → ι → ο → τ → Prop} {related : σ → τ → List ο → Prop}
    (silent : ∀ {state abstract event shown next}, related state abstract shown →
      takes state event = none → work state event = .ok next → related next abstract shown)
    (conforms : ∀ {state abstract event shown next item}, related state abstract shown →
      takes state event = some item → work state event = .ok next →
      ∃ first after, permits abstract item first after ∧ related next after (shown ++ [first]))
    {state final : σ} {abstract : τ} {events : List ε} {shown : List ο}
    (relates : related state abstract shown) (completes : run work state events = .ok final) :
    ∃ later last, Allowed permits abstract (takenUp work takes state events) later last ∧
      related final last (shown ++ later) := by
  induction events generalizing state abstract shown with
  | nil =>
      cases completes
      exact ⟨[], abstract, .nil abstract, (List.append_nil shown).symm ▸ relates⟩
  | cons event rest inductionHypothesis =>
      rcases run_cons_inv completes with ⟨next, stepped, continued⟩
      rw [takenUp, stepped]
      cases taken : takes state event with
      | none =>
          exact inductionHypothesis (silent relates taken stepped) continued
      | some item =>
          rcases conforms relates taken stepped with ⟨first, after, allowed, relatesAfter⟩
          rcases inductionHypothesis relatesAfter continued with ⟨later, last, onward, relatesLast⟩
          rw [List.append_assoc] at relatesLast
          exact ⟨first :: later, last, .cons allowed onward, relatesLast⟩

end Foundation
end ProtobufMq
