import Mathlib.Logic.Basic

namespace ProtobufMq
namespace Foundation

/-!
# Finite runs of a fallible step function

A component is presented as a step function from a state and an event to the
next state or to a fault that stops it.  A run performs a finite list of
events.  Two readings of a run are used throughout the development: a
condition on the steps (`Along`), read in the state before each step, and a
property of the states (`Throughout`), read in every state that is reached.

The two are tied by one induction.  An invariant that a step preserves under
the condition yields the property in every reached state; and if the property
can only survive a step that meets the condition, then, for a run that
completes, the two readings are equivalent.
-/

variable {σ ε φ : Type*}

/-- Perform the events in order.  The first fault ends the run. -/
def run (step : σ → ε → Except φ σ) : σ → List ε → Except φ σ
  | state, [] => .ok state
  | state, event :: rest =>
      match step state event with
      | .ok next => run step next rest
      | .error fault => .error fault

/-- Every event meets the condition in the state it is performed in. -/
def Along (step : σ → ε → Except φ σ) (meets : σ → ε → Prop) : σ → List ε → Prop
  | _, [] => True
  | state, event :: rest =>
      meets state event ∧ ∀ next, step state event = .ok next → Along step meets next rest

/-- The property holds in every state of the run, the first one included. -/
def Throughout (step : σ → ε → Except φ σ) (holds : σ → Prop) : σ → List ε → Prop
  | state, [] => holds state
  | state, event :: rest =>
      holds state ∧ ∀ next, step state event = .ok next → Throughout step holds next rest

/-- A condition that can be tested can be tested along a run. -/
instance decidableAlong (step : σ → ε → Except φ σ) (meets : σ → ε → Prop)
    [∀ state event, Decidable (meets state event)] :
    ∀ (state : σ) (events : List ε), Decidable (Along step meets state events)
  | _, [] => .isTrue trivial
  | state, event :: rest =>
      match stepped : step state event with
      | .error _ => decidable_of_iff (meets state event)
          ⟨fun conforms => ⟨conforms, fun _ other => (nomatch stepped.symm.trans other)⟩, And.left⟩
      | .ok next =>
          have := decidableAlong step meets next rest
          decidable_of_iff (meets state event ∧ Along step meets next rest)
            ⟨fun conforms => ⟨conforms.1, fun _ other =>
              Except.ok.inj (stepped.symm.trans other) ▸ conforms.2⟩,
              fun conforms => ⟨conforms.1, conforms.2 next stepped⟩⟩

/-- A property that can be tested can be tested throughout a run. -/
instance decidableThroughout (step : σ → ε → Except φ σ) (holds : σ → Prop)
    [∀ state, Decidable (holds state)] :
    ∀ (state : σ) (events : List ε), Decidable (Throughout step holds state events)
  | state, [] => inferInstanceAs (Decidable (holds state))
  | state, event :: rest =>
      match stepped : step state event with
      | .error _ => decidable_of_iff (holds state)
          ⟨fun kept => ⟨kept, fun _ other => (nomatch stepped.symm.trans other)⟩, And.left⟩
      | .ok next =>
          have := decidableThroughout step holds next rest
          decidable_of_iff (holds state ∧ Throughout step holds next rest)
            ⟨fun kept => ⟨kept.1, fun _ other =>
              Except.ok.inj (stepped.symm.trans other) ▸ kept.2⟩,
              fun kept => ⟨kept.1, kept.2 next stepped⟩⟩

/-- A mapped result succeeded before it was mapped. -/
theorem except_map_eq_ok {α β : Type*} {f : α → β} {result : Except φ α} {value : β}
    (mapped : result.map f = .ok value) : ∃ before, result = .ok before ∧ f before = value := by
  cases result with
  | error fault => cases mapped
  | ok before =>
      cases mapped
      exact ⟨before, rfl, rfl⟩

/-- A sequence that succeeds has succeeded in its first part. -/
theorem except_bind_eq_ok {α β φ : Type} {first : Except φ α} {next : α → Except φ β} {value : β}
    (completed : (first >>= next) = .ok value) :
    ∃ middle, first = .ok middle ∧ next middle = .ok value := by
  cases first with
  | error fault => cases completed
  | ok middle => exact ⟨middle, rfl, completed⟩

/-- A mapped result failed before it was mapped. -/
theorem except_map_eq_error {α β : Type*} {f : α → β} {result : Except φ α} {fault : φ}
    (mapped : result.map f = .error fault) : result = .error fault := by
  cases result with
  | error other =>
      cases mapped
      rfl
  | ok before => cases mapped

/-- What every turn of a loop preserves holds after the loop. -/
theorem foldlM_except_invariant {σ ι φ : Type} {turn : σ → ι → Except φ σ} {holds : σ → Prop}
    (preserved : ∀ state item next, holds state → turn state item = .ok next → holds next)
    {items : List ι} {start final : σ} (held : holds start)
    (completed : items.foldlM turn start = .ok final) : holds final := by
  induction items generalizing start with
  | nil =>
      cases completed
      exact held
  | cons item rest inductionHypothesis =>
      rw [List.foldlM_cons] at completed
      cases turned : turn start item with
      | error fault =>
          rw [turned] at completed
          cases completed
      | ok next =>
          rw [turned] at completed
          exact inductionHypothesis (preserved start item next held turned) completed

section Rules

variable {step : σ → ε → Except φ σ} {meets : σ → ε → Prop} {holds invariant : σ → Prop}

theorem run_cons_ok {state next : σ} {event : ε} {rest : List ε}
    (stepped : step state event = .ok next) :
    run step state (event :: rest) = run step next rest := by
  simp only [run, stepped]

theorem run_cons_error {state : σ} {event : ε} {rest : List ε} {fault : φ}
    (stepped : step state event = .error fault) :
    run step state (event :: rest) = .error fault := by
  simp only [run, stepped]

/-- A run that completes completes its first step. -/
theorem run_cons_inv {state final : σ} {event : ε} {rest : List ε}
    (completes : run step state (event :: rest) = .ok final) :
    ∃ next, step state event = .ok next ∧ run step next rest = .ok final := by
  cases stepped : step state event with
  | error fault =>
      rw [run_cons_error stepped] at completes
      cases completes
  | ok next =>
      rw [run_cons_ok stepped] at completes
      exact ⟨next, rfl, completes⟩

/-- A run of a concatenation performs the second part from where the first
part ends. -/
theorem run_append {state middle : σ} {first second : List ε}
    (completes : run step state first = .ok middle) :
    run step state (first ++ second) = run step middle second := by
  induction first generalizing state with
  | nil =>
      cases completes
      rfl
  | cons event rest inductionHypothesis =>
      rcases run_cons_inv completes with ⟨next, stepped, continued⟩
      rw [List.cons_append, run_cons_ok stepped]
      exact inductionHypothesis continued

/-- A run whose steps never stop completes. -/
theorem run_completes (total : ∀ state event, ∃ next, step state event = .ok next) (state : σ)
    (events : List ε) : ∃ final, run step state events = .ok final := by
  induction events generalizing state with
  | nil => exact ⟨state, rfl⟩
  | cons event rest inductionHypothesis =>
      rcases total state event with ⟨next, stepped⟩
      rcases inductionHypothesis next with ⟨final, completes⟩
      exact ⟨final, (run_cons_ok stepped).trans completes⟩

/-- The run rule: what every conforming step preserves holds at the end. -/
theorem run_invariant
    (preserved : ∀ state event next, invariant state → meets state event →
      step state event = .ok next → invariant next)
    {state final : σ} {events : List ε} (start : invariant state)
    (conforming : Along step meets state events)
    (completes : run step state events = .ok final) : invariant final := by
  induction events generalizing state with
  | nil =>
      cases completes
      exact start
  | cons event rest inductionHypothesis =>
      rcases run_cons_inv completes with ⟨next, stepped, continued⟩
      exact inductionHypothesis (preserved state event next start conforming.1 stepped)
        (conforming.2 next stepped) continued

/-- A run none of whose steps is constrained conforms. -/
theorem along_trivial (step : σ → ε → Except φ σ) (state : σ) (events : List ε) :
    Along step (fun _ _ => True) state events := by
  induction events generalizing state with
  | nil => exact trivial
  | cons event rest inductionHypothesis =>
      exact ⟨trivial, fun next _ => inductionHypothesis next⟩

/-- A condition on the events alone. -/
theorem along_of_forall {meets : ε → Prop} {state : σ} {events : List ε}
    (all : ∀ event ∈ events, meets event) : Along step (fun _ event => meets event) state events := by
  induction events generalizing state with
  | nil => exact trivial
  | cons event rest inductionHypothesis =>
      exact ⟨all event List.mem_cons_self, fun next _ => inductionHypothesis
        fun later member => all later (List.mem_cons_of_mem _ member)⟩

/-- A run conforms if its first step, whose result is known, does. -/
theorem along_cons {state next : σ} {event : ε} {rest : List ε} (conforms : meets state event)
    (stepped : step state event = .ok next) (onward : Along step meets next rest) :
    Along step meets state (event :: rest) := by
  refine ⟨conforms, fun other otherStepped => ?_⟩
  cases stepped.symm.trans otherStepped
  exact onward

/-- A run conforms if its first part does and its second part does from where
the first one ends. -/
theorem along_append {state middle : σ} {first second : List ε}
    (conforms : Along step meets state first) (completes : run step state first = .ok middle)
    (onward : Along step meets middle second) : Along step meets state (first ++ second) := by
  induction first generalizing state with
  | nil =>
      cases completes
      exact onward
  | cons event rest inductionHypothesis =>
      rcases run_cons_inv completes with ⟨next, stepped, continued⟩
      exact along_cons conforms.1 stepped (inductionHypothesis (conforms.2 next stepped) continued)

/-- The last event of a conforming run meets the condition. -/
theorem Along.last {state middle : σ} {events : List ε} {event : ε}
    (conforming : Along step meets state (events ++ [event]))
    (completes : run step state events = .ok middle) : meets middle event := by
  induction events generalizing state with
  | nil =>
      cases completes
      exact conforming.1
  | cons first rest inductionHypothesis =>
      rcases run_cons_inv completes with ⟨next, stepped, continued⟩
      exact inductionHypothesis (conforming.2 next stepped) continued

/-- A condition may be weakened along a run. -/
theorem Along.mono {weaker : σ → ε → Prop}
    (implied : ∀ state event, meets state event → weaker state event)
    {state : σ} {events : List ε} (conforming : Along step meets state events) :
    Along step weaker state events := by
  induction events generalizing state with
  | nil => exact trivial
  | cons event rest inductionHypothesis =>
      exact ⟨implied state event conforming.1,
        fun next stepped => inductionHypothesis (conforming.2 next stepped)⟩

/-- Two conditions that hold along a run hold together. -/
theorem Along.and {other : σ → ε → Prop} {state : σ} {events : List ε}
    (conforming : Along step meets state events) (also : Along step other state events) :
    Along step (fun state event => meets state event ∧ other state event) state events := by
  induction events generalizing state with
  | nil => exact trivial
  | cons event rest inductionHypothesis =>
      exact ⟨⟨conforming.1, also.1⟩, fun next stepped =>
        inductionHypothesis (conforming.2 next stepped) (also.2 next stepped)⟩

/-- The run rule for every reached state. -/
theorem throughout_of_along (sound : ∀ state, invariant state → holds state)
    (preserved : ∀ state event next, invariant state → meets state event →
      step state event = .ok next → invariant next)
    {state : σ} {events : List ε} (start : invariant state)
    (conforming : Along step meets state events) :
    Throughout step holds state events := by
  induction events generalizing state with
  | nil => exact sound state start
  | cons event rest inductionHypothesis =>
      exact ⟨sound state start, fun next stepped =>
        inductionHypothesis (preserved state event next start conforming.1 stepped)
          (conforming.2 next stepped)⟩

/-- The run rule for the steps: what holds of every conforming step where the
invariant does. -/
theorem along_of_along {has : σ → ε → Prop}
    (sound : ∀ state event, invariant state → meets state event → has state event)
    (preserved : ∀ state event next, invariant state → meets state event →
      step state event = .ok next → invariant next)
    {state : σ} {events : List ε} (start : invariant state)
    (conforming : Along step meets state events) : Along step has state events := by
  induction events generalizing state with
  | nil => exact trivial
  | cons event rest inductionHypothesis =>
      exact ⟨sound state event start conforming.1, fun next stepped =>
        inductionHypothesis (preserved state event next start conforming.1 stepped)
          (conforming.2 next stepped)⟩

/-- Two conditions are the same along a run if an invariant that every step keeps
makes them the same. -/
theorem along_congr {has : σ → ε → Prop}
    (preserved : ∀ state event next, invariant state → step state event = .ok next → invariant next)
    (same : ∀ state event, invariant state → (has state event ↔ meets state event))
    {state : σ} {events : List ε} (start : invariant state) :
    Along step has state events ↔ Along step meets state events := by
  induction events generalizing state with
  | nil => exact Iff.rfl
  | cons event rest inductionHypothesis =>
      refine and_congr (same state event start) (forall₂_congr fun next stepped => ?_)
      exact inductionHypothesis (preserved state event next start stepped)

theorem Throughout.first {state : σ} {events : List ε}
    (everywhere : Throughout step holds state events) : holds state := by
  cases events with
  | nil => exact everywhere
  | cons event rest => exact everywhere.1

theorem Throughout.last {state final : σ} {events : List ε}
    (everywhere : Throughout step holds state events)
    (completes : run step state events = .ok final) : holds final := by
  induction events generalizing state with
  | nil =>
      cases completes
      exact everywhere
  | cons event rest inductionHypothesis =>
      rcases run_cons_inv completes with ⟨next, stepped, continued⟩
      exact inductionHypothesis (everywhere.2 next stepped) continued

/-- What cannot be regained holds from the start, if it holds at the end. -/
theorem throughout_of_last
    (lost : ∀ state event next, step state event = .ok next → holds next → holds state)
    {state final : σ} {events : List ε} (completes : run step state events = .ok final)
    (last : holds final) : Throughout step holds state events := by
  induction events generalizing state with
  | nil =>
      cases completes
      exact last
  | cons event rest inductionHypothesis =>
      rcases run_cons_inv completes with ⟨next, stepped, continued⟩
      have onward := inductionHypothesis continued
      refine ⟨lost state event next stepped onward.first, fun other otherStepped => ?_⟩
      cases stepped.symm.trans otherStepped
      exact onward

/-- The converse of the run rule.  If the property survives a step only when
the step meets the condition, then a run that keeps the property conforms. -/
theorem along_of_throughout
    (preserved : ∀ state event next, invariant state → meets state event →
      step state event = .ok next → invariant next)
    (necessary : ∀ state event next, invariant state → step state event = .ok next →
      holds next → meets state event)
    {state final : σ} {events : List ε} (start : invariant state)
    (completes : run step state events = .ok final)
    (everywhere : Throughout step holds state events) :
    Along step meets state events := by
  induction events generalizing state with
  | nil => exact trivial
  | cons event rest inductionHypothesis =>
      rcases run_cons_inv completes with ⟨next, stepped, continued⟩
      have onward := everywhere.2 next stepped
      have conforms := necessary state event next start stepped onward.first
      exact along_cons conforms stepped (inductionHypothesis
        (preserved state event next start conforms stepped) continued onward)

/-- Both readings agree on a run that completes. -/
theorem throughout_iff_along (sound : ∀ state, invariant state → holds state)
    (preserved : ∀ state event next, invariant state → meets state event →
      step state event = .ok next → invariant next)
    (necessary : ∀ state event next, invariant state → step state event = .ok next →
      holds next → meets state event)
    {state final : σ} {events : List ε} (start : invariant state)
    (completes : run step state events = .ok final) :
    Throughout step holds state events ↔ Along step meets state events :=
  ⟨along_of_throughout preserved necessary start completes,
    throughout_of_along sound preserved start⟩

/-- Both readings agree on every run, completed or not, when a step that stops
meets the condition anyway. -/
theorem throughout_iff_along_of_stopping (sound : ∀ state, invariant state → holds state)
    (preserved : ∀ state event next, invariant state → meets state event →
      step state event = .ok next → invariant next)
    (necessary : ∀ state event, invariant state →
      (∀ next, step state event = .ok next → holds next) → meets state event)
    {state : σ} {events : List ε} (start : invariant state) :
    Throughout step holds state events ↔ Along step meets state events := by
  refine ⟨?_, throughout_of_along sound preserved start⟩
  intro everywhere
  induction events generalizing state with
  | nil => exact trivial
  | cons event rest inductionHypothesis =>
      have conforms := necessary state event start fun next stepped =>
        (everywhere.2 next stepped).first
      exact ⟨conforms, fun next stepped => inductionHypothesis
        (preserved state event next start conforms stepped) (everywhere.2 next stepped)⟩

/-- If every step from a state with the property completes and keeps the property
exactly under a condition, then so does a run. -/
theorem completes_and_throughout_iff {admissible : ε → Prop}
    (each : ∀ state event, holds state → admissible event →
      ((∃ next, step state event = .ok next ∧ holds next) ↔ meets state event))
    {state : σ} {events : List ε} (start : holds state)
    (all : ∀ event ∈ events, admissible event) :
    (∃ final, run step state events = .ok final) ∧ Throughout step holds state events ↔
      Along step meets state events := by
  induction events generalizing state with
  | nil => exact ⟨fun _ => trivial, fun _ => ⟨⟨state, rfl⟩, start⟩⟩
  | cons event rest inductionHypothesis =>
      rw [List.forall_mem_cons] at all
      constructor
      · rintro ⟨⟨final, completes⟩, everywhere⟩
        rcases run_cons_inv completes with ⟨next, stepped, continued⟩
        have onward := everywhere.2 next stepped
        exact along_cons ((each state event start all.1).mp ⟨next, stepped, onward.first⟩) stepped
          ((inductionHypothesis onward.first all.2).mp ⟨⟨final, continued⟩, onward⟩)
      · intro conforming
        rcases (each state event start all.1).mpr conforming.1 with ⟨next, stepped, kept⟩
        rcases (inductionHypothesis kept all.2).mpr (conforming.2 next stepped) with
          ⟨⟨final, continued⟩, everywhere⟩
        refine ⟨⟨final, (run_cons_ok stepped).trans continued⟩, start, fun other otherStepped => ?_⟩
        cases stepped.symm.trans otherStepped
        exact everywhere

end Rules

section Reaching

variable {step : σ → ε → Except φ σ}

/-- Some run leads from the one state to the other. -/
def Reaches (step : σ → ε → Except φ σ) (start final : σ) : Prop :=
  ∃ events, run step start events = .ok final

theorem Reaches.refl (state : σ) : Reaches step state state :=
  ⟨[], rfl⟩

theorem Reaches.trans {start middle final : σ} (first : Reaches step start middle)
    (second : Reaches step middle final) : Reaches step start final := by
  rcases first with ⟨events, completes⟩
  rcases second with ⟨later, continued⟩
  exact ⟨events ++ later, (run_append completes).trans continued⟩

theorem Reaches.cons {start next final : σ} {event : ε} (stepped : step start event = .ok next)
    (onward : Reaches step next final) : Reaches step start final := by
  rcases onward with ⟨events, completes⟩
  exact ⟨event :: events, (run_cons_ok stepped).trans completes⟩

/-- If every step of a coarse function is a run of a fine one, then so is every
run of it. -/
theorem reaches_of_run {τ ι : Type*} {coarse : τ → ι → Except φ τ} {place : τ → σ}
    (split : ∀ state event next, coarse state event = .ok next →
      Reaches step (place state) (place next))
    {state final : τ} {events : List ι} (completes : run coarse state events = .ok final) :
    Reaches step (place state) (place final) := by
  induction events generalizing state with
  | nil =>
      cases completes
      exact Reaches.refl (place final)
  | cons event rest inductionHypothesis =>
      rcases run_cons_inv completes with ⟨next, stepped, continued⟩
      exact (split state event next stepped).trans (inductionHypothesis continued)

end Reaching

end Foundation
end ProtobufMq
