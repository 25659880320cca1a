/-
Runs of a system that are runs of another one, seen through a relation.

Each step of the system is a run of the other one, of any length, on related
states.  So a run is a run as well, and ends in a related state.
-/
import LDPlayer.Foundation.Runs

set_option autoImplicit false

namespace Runs

variable {State Event Fault State' Event' Fault' : Type}
variable {step : State → Event → Except Fault State} {admits : State → Event → Prop}
variable {step' : State' → Event' → Except Fault' State'} {admits' : State' → Event' → Prop}

/-- An admitted step is a run of the other system, whose events stand for this one. -/
def Simulates (step : State → Event → Except Fault State) (admits : State → Event → Prop)
    (step' : State' → Event' → Except Fault' State') (admits' : State' → Event' → Prop)
    (stands : Event → List Event' → Prop) (related : State → State' → Prop) : Prop :=
  ∀ state event next seen, related state seen → admits state event →
    step state event = .ok next →
    ∃ events after, stands event events ∧ Run step' admits' seen events after ∧
      related next after

variable {stands : Event → List Event' → Prop} {related : State → State' → Prop}

theorem Simulates.run (simulates : Simulates step admits step' admits' stands related)
    {start final : State} {events : List Event} (run : Run step admits start events final)
    {seen : State'} (initial : related start seen) :
    ∃ parts after, List.Forall₂ stands events parts ∧
      Run step' admits' seen parts.flatten after ∧ related final after := by
  induction run generalizing seen with
  | done state => exact ⟨[], seen, .nil, .done seen, initial⟩
  | next admitted stepped _rest ih =>
      obtain ⟨part, middle, stood, first, kept⟩ := simulates _ _ _ _ initial admitted stepped
      obtain ⟨parts, after, others, later, reached⟩ := ih kept
      exact ⟨part :: parts, after, .cons stood others, first.append later, reached⟩

theorem Simulates.run_of {translate : Event → List Event'}
    (simulates : Simulates step admits step' admits'
      (fun event events => events = translate event) related)
    {start final : State} {events : List Event} (run : Run step admits start events final)
    {seen : State'} (initial : related start seen) :
    ∃ after, Run step' admits' seen (events.flatMap translate) after ∧ related final after := by
  obtain ⟨parts, after, stood, reached, kept⟩ := simulates.run run initial
  have same : parts = events.map translate := by
    clear reached run
    induction stood with
    | nil => rfl
    | cons first _others ih => rw [first, ih, List.map_cons]
  refine ⟨after, ?_, kept⟩
  rw [List.flatMap_def, ← same]
  exact reached

end Runs
