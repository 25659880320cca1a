/-
A producer and its consumers, joined by streams.

The producer's state tells what has arrived for each consumer, which reads on from
where it stopped, in pieces of any size.  Both sides go on in any order.  Seen from
one side a run is a run of that side, and what a consumer has read is the front of
what has arrived for it.
-/
import LDPlayer.Foundation.Simulation

set_option autoImplicit false

namespace Pipeline

variable {Producer Produce Consumer Consume Target Item Fault : Type}

/-- The two sides; what the consumers have read is kept beside them. -/
structure State (Producer Consumer Target Item : Type) where
  producer : Producer
  consumers : Target → Consumer
  read : Target → List Item := fun _ => []

inductive Event (Produce Consume Target : Type) where
  | produce (event : Produce)
  | consume (target : Target) (event : Consume)

/-- The steps of the two sides, what has arrived, and what an event reads. -/
structure Sides (Producer Produce Consumer Consume Target Item Fault : Type) where
  produces : Producer → Produce → Except Fault Producer
  may_produce : Producer → Produce → Prop
  consumes : Target → Consumer → Consume → Except Fault Consumer
  may_consume : Target → Consumer → Consume → Prop
  arrived : Producer → Target → List Item
  data : Consume → List Item

variable [DecidableEq Target]

def step (sides : Sides Producer Produce Consumer Consume Target Item Fault)
    (s : State Producer Consumer Target Item) :
    Event Produce Consume Target → Except Fault (State Producer Consumer Target Item)
  | .produce event =>
      (sides.produces s.producer event).map (fun next => { s with producer := next })
  | .consume target event =>
      (sides.consumes target (s.consumers target) event).map (fun next =>
        { s with
          consumers := Function.update s.consumers target next
          read := Function.update s.read target (s.read target ++ sides.data event) })

/-- A consumer reads what has arrived and it has not read yet, or a part of it. -/
def admits (sides : Sides Producer Produce Consumer Consume Target Item Fault)
    (s : State Producer Consumer Target Item) : Event Produce Consume Target → Prop
  | .produce event => sides.may_produce s.producer event
  | .consume target event => sides.may_consume target (s.consumers target) event ∧
      s.read target ++ sides.data event <+: sides.arrived s.producer target

abbrev Run (sides : Sides Producer Produce Consumer Consume Target Item Fault) :
    State Producer Consumer Target Item → List (Event Produce Consume Target) →
      State Producer Consumer Target Item → Prop :=
  Runs.Run (step sides) (admits sides)

def produced : Event Produce Consume Target → List Produce
  | .produce event => [event]
  | .consume _ _ => []

def consumed (target : Target) : Event Produce Consume Target → List Consume
  | .produce _ => []
  | .consume other event => if other = target then [event] else []

theorem consumed_self (target : Target) (event : Consume) :
    consumed target (.consume target event : Event Produce Consume Target) = [event] :=
  if_pos rfl

theorem consumed_of_ne {target other : Target} (different : other ≠ target) (event : Consume) :
    consumed target (.consume other event : Event Produce Consume Target) = [] :=
  if_neg different

variable {sides : Sides Producer Produce Consumer Consume Target Item Fault}

theorem map_eq_ok {α β : Type} {f : α → β} {value : Except Fault α} {result : β}
    (mapped : value.map f = .ok result) : ∃ inner, value = .ok inner ∧ f inner = result := by
  cases value with
  | error fault => cases mapped
  | ok inner => exact ⟨inner, rfl, Except.ok.inj mapped⟩

private theorem simulates_producer : Runs.Simulates (step sides) (admits sides) sides.produces
    sides.may_produce (fun event events => events = produced event)
    (fun s producer => producer = s.producer) := by
  intro s event next producer same admitted stepped
  subst same
  cases event with
  | produce event =>
      obtain ⟨after, produced, rfl⟩ := map_eq_ok stepped
      exact ⟨[event], after, rfl, .single admitted produced, rfl⟩
  | consume target event =>
      obtain ⟨after, _consumed, rfl⟩ := map_eq_ok stepped
      exact ⟨[], s.producer, rfl, .done _, rfl⟩

private theorem simulates_consumer (target : Target) : Runs.Simulates (step sides) (admits sides)
    (sides.consumes target) (sides.may_consume target)
    (fun event events => events = consumed target event)
    (fun s consumer => consumer = s.consumers target) := by
  intro s event next consumer same admitted stepped
  subst same
  cases event with
  | produce event =>
      obtain ⟨after, _produced, rfl⟩ := map_eq_ok stepped
      exact ⟨[], s.consumers target, rfl, .done _, rfl⟩
  | consume other event =>
      obtain ⟨after, moved, rfl⟩ := map_eq_ok stepped
      by_cases same : other = target
      · subst same
        exact ⟨[event], after, (consumed_self other event).symm, .single admitted.1 moved,
          (Function.update_self other after s.consumers).symm⟩
      · exact ⟨[], s.consumers target, (consumed_of_ne same event).symm, .done _,
          (Function.update_of_ne (Ne.symm same) after s.consumers).symm⟩

variable {start final : State Producer Consumer Target Item}
variable {events : List (Event Produce Consume Target)}

theorem Run.producer (run : Run sides start events final) :
    Runs.Run sides.produces sides.may_produce start.producer (events.flatMap produced)
      final.producer := by
  obtain ⟨after, reached, rfl⟩ := simulates_producer.run_of run rfl
  exact reached

theorem Run.consumer (run : Run sides start events final) (target : Target) :
    Runs.Run (sides.consumes target) (sides.may_consume target) (start.consumers target)
      (events.flatMap (consumed target)) (final.consumers target) := by
  obtain ⟨after, reached, rfl⟩ := (simulates_consumer target).run_of run rfl
  exact reached

theorem Run.read (run : Run sides start events final) (target : Target) :
    final.read target =
      start.read target ++ ((events.flatMap (consumed target)).map sides.data).flatten := by
  induction run with
  | done s => exact (List.append_nil _).symm
  | @next s middle final event later admitted stepped _rest ih =>
      rw [ih, List.flatMap_cons, List.map_append, List.flatten_append, ← List.append_assoc]
      congr 1
      cases event with
      | produce event =>
          obtain ⟨after, _produced, rfl⟩ := map_eq_ok stepped
          exact (List.append_nil _).symm
      | consume other event =>
          obtain ⟨after, _moved, rfl⟩ := map_eq_ok stepped
          by_cases same : other = target
          · subst same
            rw [consumed_self]
            simp
          · rw [consumed_of_ne same]
            simp [Function.update_of_ne (Ne.symm same)]

/-- Where arrivals stay, a consumer has read the front of them. -/
theorem Run.read_front (stays : ∀ producer event next, sides.produces producer event = .ok next →
      ∀ target, sides.arrived producer target <+: sides.arrived next target)
    (run : Run sides start events final)
    (initial : ∀ target, start.read target <+: sides.arrived start.producer target)
    (target : Target) : final.read target <+: sides.arrived final.producer target := by
  have keeps : ∀ (s : State Producer Consumer Target Item) event next,
      (∀ target, s.read target <+: sides.arrived s.producer target) → admits sides s event →
      step sides s event = .ok next →
      ∀ target, next.read target <+: sides.arrived next.producer target := by
    intro s event next front admitted stepped target
    cases event with
    | produce event =>
        obtain ⟨after, produced, rfl⟩ := map_eq_ok stepped
        exact (front target).trans (stays _ _ _ produced target)
    | consume other event =>
        obtain ⟨after, _moved, rfl⟩ := map_eq_ok stepped
        by_cases same : target = other
        · subst same
          change Function.update s.read target _ target <+: _
          rw [Function.update_self]
          exact admitted.2
        · change Function.update s.read other _ target <+: _
          rw [Function.update_of_ne same]
          exact front target
  exact Runs.Run.invariant keeps run initial target

end Pipeline
