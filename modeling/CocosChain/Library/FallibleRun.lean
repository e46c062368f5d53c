import CocosChain.Library.Checked

/-!
# Runs of steps that may be refused

A run performs one operation after the other; a refused operation ends it.  A
property holds throughout a run if it holds in every state on the way.  The
rules reduce such a statement to one about a single step.
-/

namespace CocosChain.FallibleRun

variable {State Operation ε : Type} (step : State → Operation → Except ε State)

def run : State → List Operation → Except ε State
  | state, [] => .ok state
  | state, operation :: rest => do
      let next ← step state operation
      run next rest

/-- The property holds in every state that the run passes. -/
def Throughout (property : State → Prop) : State → List Operation → Prop
  | state, [] => property state
  | state, operation :: rest =>
      property state ∧ ∀ next, step state operation = .ok next → Throughout property next rest

/-- Every step that goes through meets the condition. -/
def Meets (condition : State → Operation → Prop) : State → List Operation → Prop
  | _, [] => True
  | state, operation :: rest =>
      ∀ next, step state operation = .ok next →
        condition state operation ∧ Meets condition next rest

variable {step} {state : State} {operations : List Operation} {property invariant : State → Prop}

section

variable (throughout : Throughout step property state operations)
include throughout

theorem Throughout.start : property state := by
  cases operations with
  | nil => exact throughout
  | cons operation rest => exact throughout.1

theorem Throughout.mono (implies : ∀ state, property state → weaker state) :
    Throughout step weaker state operations := by
  induction operations generalizing state with
  | nil => exact implies state throughout
  | cons operation rest induction =>
    refine ⟨implies state throughout.1, fun next performed => ?_⟩
    exact induction (throughout.2 next performed)

theorem Throughout.atEnd (finished : run step state operations = .ok ending) : property ending := by
  induction operations generalizing state with
  | nil =>
    cases finished
    exact throughout
  | cons operation rest induction =>
    obtain ⟨next, performed, later⟩ := bind_eq_ok.mp finished
    exact induction (throughout.2 next performed) later

end

/-- What every step that meets the condition preserves holds throughout. -/
theorem throughout_of_step (preserves : ∀ state operation next, property state →
      condition state operation → step state operation = .ok next → property next)
    (start : property state) (meets : Meets step condition state operations) :
    Throughout step property state operations := by
  induction operations generalizing state with
  | nil => exact start
  | cons operation rest induction =>
    refine ⟨start, fun next performed => ?_⟩
    obtain ⟨met, later⟩ := meets next performed
    exact induction (preserves state operation next start met performed) later

/-- A condition on the steps is exact if it is so for each of them, in states
that satisfy an invariant. -/
theorem throughout_iff_of_step (keeps : ∀ state operation next, invariant state → property state →
      step state operation = .ok next → invariant next)
    (exactly : ∀ state operation next, invariant state → property state →
      step state operation = .ok next → (property next ↔ condition state operation))
    (sound : invariant state) (start : property state) : Throughout step property state operations ↔
      Meets step condition state operations := by
  induction operations generalizing state with
  | nil => exact ⟨fun _ => trivial, fun _ => start⟩
  | cons operation rest induction =>
    constructor
    · rintro ⟨-, throughout⟩ next performed
      have holds : property next := (throughout next performed).start
      refine ⟨(exactly state operation next sound start performed).mp holds, ?_⟩
      exact (induction (keeps state operation next sound start performed)
        holds).mp (throughout next performed)
    · intro meets
      refine ⟨start, fun next performed => ?_⟩
      obtain ⟨met, later⟩ := meets next performed
      have holds : property next := (exactly state operation next sound start performed).mpr met
      exact (induction (keeps state operation next sound start performed) holds).mpr later

end CocosChain.FallibleRun
