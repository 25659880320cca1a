/-
Loops over a list whose steps may fail.

An invariant of such a loop speaks about the items that are done.  The two rules
are for a loop that has ended and for one whose steps succeed.
-/
import Mathlib

set_option autoImplicit false

namespace Folds

variable {Fault State Item Value Other : Type}

theorem bind_ok {value : Except Fault Value} {rest : Value → Except Fault Other} {result : Other}
    (ended : value >>= rest = .ok result) :
    ∃ given, value = .ok given ∧ rest given = .ok result := by
  cases value with
  | error fault => cases ended
  | ok given => exact ⟨given, rfl, ended⟩

theorem map_ok {value : Except Fault Value} {f : Value → Other} {result : Other}
    (ended : value.map f = .ok result) : ∃ given, value = .ok given ∧ f given = result := by
  cases value with
  | error fault => cases ended
  | ok given => exact ⟨given, rfl, Except.ok.inj ended⟩

theorem mapM_ok_iff {f : Item → Except Fault Value} {items : List Item} {values : List Value} :
    items.mapM f = .ok values ↔ List.Forall₂ (fun item value => f item = .ok value) items values := by
  induction items generalizing values with
  | nil =>
      constructor
      · intro ended
        cases ended
        exact .nil
      · intro none
        cases none
        rfl
  | cons item rest ih =>
      rw [List.mapM_cons]
      constructor
      · intro ended
        obtain ⟨own, first, others⟩ := bind_ok ended
        obtain ⟨later, tail, same⟩ := bind_ok others
        rw [← Except.ok.inj same]
        exact .cons first (ih.mp tail)
      · intro all
        cases all with
        | cons first others =>
            rw [first, ih.mpr others]
            rfl

theorem exists_pair {Pair : Item → Value → Prop} {items : List Item} {values : List Value}
    (all : List.Forall₂ Pair items values) {item : Item} (member : item ∈ items) :
    ∃ value ∈ values, Pair item value := by
  induction all with
  | nil => cases member
  | cons pair _rest ih =>
      rcases List.mem_cons.mp member with rfl | later
      · exact ⟨_, List.mem_cons_self, pair⟩
      · obtain ⟨value, listed, found⟩ := ih later
        exact ⟨value, List.mem_cons_of_mem _ listed, found⟩

variable {stepM : State → Item → Except Fault State} {invariant : List Item → State → Prop}

private theorem ended_from
    (steps : ∀ done item state next, invariant done state → stepM state item = .ok next →
      invariant (done ++ [item]) next)
    {items done : List Item} {state last : State} (start : invariant done state)
    (ended : items.foldlM stepM state = .ok last) : invariant (done ++ items) last := by
  induction items generalizing done state with
  | nil =>
      rw [List.append_nil, ← Except.ok.inj ended]
      exact start
  | cons item rest ih =>
      rw [List.foldlM_cons] at ended
      obtain ⟨next, stepped, later⟩ := bind_ok ended
      have final := ih (steps done item state next start stepped) later
      rw [List.append_assoc] at final
      exact final

/-- What every step that succeeds keeps holds of all items at the end of the loop. -/
theorem invariant_of_ended
    (steps : ∀ done item state next, invariant done state → stepM state item = .ok next →
      invariant (done ++ [item]) next)
    {items : List Item} {state last : State} (start : invariant [] state)
    (ended : items.foldlM stepM state = .ok last) : invariant items last :=
  ended_from steps start ended

private theorem ends_from {all : List Item}
    (steps : ∀ done item rest state, all = done ++ item :: rest → invariant done state →
      ∃ next, stepM state item = .ok next ∧ invariant (done ++ [item]) next)
    {items done : List Item} (front : all = done ++ items) {state : State}
    (start : invariant done state) :
    ∃ last, items.foldlM stepM state = .ok last ∧ invariant (done ++ items) last := by
  induction items generalizing done state with
  | nil =>
      rw [List.append_nil]
      exact ⟨state, rfl, start⟩
  | cons item rest ih =>
      obtain ⟨next, stepped, kept⟩ := steps done item rest state front start
      have further : all = done ++ [item] ++ rest := by
        rw [front, List.append_assoc]
        rfl
      obtain ⟨last, ended, final⟩ := ih further kept
      rw [List.append_assoc] at final
      refine ⟨last, ?_, final⟩
      rw [List.foldlM_cons, stepped]
      exact ended

/-- A loop ends if every step succeeds from the invariant of the items before it. -/
theorem ends_of_steps {items : List Item}
    (steps : ∀ done item rest state, items = done ++ item :: rest → invariant done state →
      ∃ next, stepM state item = .ok next ∧ invariant (done ++ [item]) next)
    {state : State} (start : invariant [] state) :
    ∃ last, items.foldlM stepM state = .ok last ∧ invariant items last :=
  ends_from steps rfl start

theorem ends_of_each {items : List Item}
    (each : ∀ item ∈ items, ∀ state, ∃ next, stepM state item = .ok next) (state : State) :
    ∃ last, items.foldlM stepM state = .ok last := by
  induction items generalizing state with
  | nil => exact ⟨state, rfl⟩
  | cons item rest ih =>
      obtain ⟨next, stepped⟩ := each item List.mem_cons_self state
      rw [List.foldlM_cons, stepped]
      exact ih (fun other member => each other (List.mem_cons_of_mem item member)) next

theorem front_ends {front rest : List Item} {state last : State}
    (ended : (front ++ rest).foldlM stepM state = .ok last) :
    ∃ middle, front.foldlM stepM state = .ok middle ∧ rest.foldlM stepM middle = .ok last := by
  rw [List.foldlM_append] at ended
  exact bind_ok ended

end Folds
