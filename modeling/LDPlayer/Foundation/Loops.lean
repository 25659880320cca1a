/-
Loops as step functions: a state without a next one is an end.

A loop ends where its evaluation is defined.  A number of turns that is enough
can be computed.  Two rules are for loops inside loops and for loops seen through
a component; the loop on a component here is a counter that wraps around.
-/
import Mathlib

set_option autoImplicit false

namespace Loops

open StateTransition

variable {State Inner : Type} {step : State → Option State}

def Ends (step : State → Option State) (state : State) : Prop := (eval step state).Dom

def endsWithin (step : State → Option State) : Nat → State → Bool
  | 0, state => (step state).isNone
  | turns + 1, state => (step state).all (endsWithin step turns)

theorem ends_iff_mem {state : State} : Ends step state ↔ ∃ last, last ∈ eval step state :=
  Part.dom_iff_mem

theorem ends_of_none {state : State} (last : step state = none) : Ends step state :=
  ends_iff_mem.mpr ⟨state, mem_eval.mpr ⟨.refl, last⟩⟩

theorem ends_iff_next {state next : State} (turn : step state = some next) :
    Ends step state ↔ Ends step next := by
  unfold Ends
  rw [reaches_eval (Relation.ReflTransGen.single turn)]

theorem ends_of_within {turns : Nat} {state : State}
    (within : endsWithin step turns state = true) : Ends step state := by
  induction turns generalizing state with
  | zero => exact ends_of_none (Option.isNone_iff_eq_none.mp within)
  | succ turns ih =>
      cases turn : step state with
      | none => exact ends_of_none turn
      | some next =>
          rw [endsWithin, turn, Option.all_some] at within
          exact (ends_iff_next turn).mpr (ih within)

theorem kept_of_reaches (holds : State → Prop)
    (keeps : ∀ state next, holds state → step state = some next → holds next)
    {state last : State} (reached : Reaches step state last) (initial : holds state) :
    holds last := by
  induction reached with
  | refl => exact initial
  | tail _front turn ih => exact keeps _ _ ih turn

/-- A loop that always goes on from a state of some kind to another of it never ends. -/
theorem not_ends_of_progress (goes : State → Prop)
    (progress : ∀ state, goes state → ∃ next, step state = some next ∧ goes next)
    {state : State} (initial : goes state) : ¬ Ends step state := by
  intro ends
  obtain ⟨last, evaluated⟩ := ends_iff_mem.mp ends
  obtain ⟨reached, none⟩ := mem_eval.mp evaluated
  have atLast : goes last := by
    apply kept_of_reaches goes _ reached initial
    intro middle next holds turn
    obtain ⟨other, same, kept⟩ := progress middle holds
    obtain rfl := Option.some.inj (turn.symm.trans same)
    exact kept
  obtain ⟨next, turn, _kept⟩ := progress last atLast
  rw [none] at turn
  cases turn

/-! ### A loop inside another -/

/-- Where the turns of an inner loop are turns of the outer one, and the end of the
inner loop leads on, the outer loop ends exactly if the inner one does and what is
behind it does. -/
theorem ends_nested {inner : Inner → Option Inner} {embed leave : Inner → State}
    (inside : ∀ state next, inner state = some next → step (embed state) = some (embed next))
    (leaves : ∀ state, inner state = none → step (embed state) = some (leave state))
    (state : Inner) :
    Ends step (embed state) ↔ ∃ last, last ∈ eval inner state ∧ Ends step (leave last) := by
  constructor
  · intro ends
    by_cases done : Ends inner state
    · obtain ⟨last, evaluated⟩ := ends_iff_mem.mp done
      refine ⟨last, evaluated, ?_⟩
      obtain ⟨reached, none⟩ := mem_eval.mp evaluated
      have followed : Ends step (embed last) := by
        apply kept_of_reaches (fun middle => Ends step (embed middle)) _ reached ends
        intro middle next holds turn
        exact (ends_iff_next (inside _ _ turn)).mp holds
      exact (ends_iff_next (leaves last none)).mp followed
    · apply absurd ends
      apply not_ends_of_progress
        (fun outer => ∃ middle, outer = embed middle ∧ ¬ Ends inner middle) _ ⟨state, rfl, done⟩
      intro outer goes
      obtain ⟨middle, rfl, endless⟩ := goes
      cases turn : inner middle with
      | none => exact absurd (ends_of_none turn) endless
      | some next =>
          refine ⟨embed next, inside _ _ turn, next, rfl, ?_⟩
          exact fun later => endless ((ends_iff_next turn).mpr later)
  · intro found
    obtain ⟨last, evaluated, behind⟩ := found
    obtain ⟨reached, none⟩ := mem_eval.mp evaluated
    have atLast := (ends_iff_next (leaves last none)).mpr behind
    clear evaluated
    induction reached using Relation.ReflTransGen.head_induction_on with
    | refl => exact atLast
    | head turn _rest ih => exact (ends_iff_next (inside _ _ turn)).mpr ih

/-! ### A loop through one of its components -/

variable {other : Inner → Option Inner} {view : State → Inner}

theorem within_view (same : ∀ state, (step state).map view = other (view state)) (turns : Nat)
    (state : State) : endsWithin step turns state = endsWithin other turns (view state) := by
  induction turns generalizing state with
  | zero => rw [endsWithin, endsWithin, ← same, Option.isNone_map]
  | succ turns ih =>
      rw [endsWithin, endsWithin, ← same]
      cases step state with
      | none => rfl
      | some next => exact ih next

theorem ends_view (same : ∀ state, (step state).map view = other (view state)) (state : State) :
    Ends step state ↔ Ends other (view state) := by
  have respects : Respects step other (fun state seen => view state = seen) := by
    rw [fun_respects]
    intro state
    have seen := same state
    cases turn : step state with
    | none =>
        rw [turn] at seen
        exact seen.symm
    | some next =>
        rw [turn] at seen
        exact Relation.TransGen.single seen.symm
  exact (tr_eval_dom respects rfl).symm

/-! ### A counter that wraps around -/

def count (modulus bound i : Nat) : Option Nat :=
  if i < bound then some ((i + 1) % modulus) else none

variable {modulus bound : Nat}

theorem count_within (fits : bound < modulus) (turns : Nat) {i : Nat}
    (enough : bound ≤ i + turns) : endsWithin (count modulus bound) turns i = true := by
  induction turns generalizing i with
  | zero =>
      rw [endsWithin, count, if_neg (by omega)]
      rfl
  | succ turns ih =>
      rw [endsWithin, count]
      by_cases below : i < bound
      · rw [if_pos below, Option.all_some, Nat.mod_eq_of_lt (by omega)]
        exact ih (by omega)
      · rw [if_neg below]
        rfl

/-- From zero the counter gets to its bound exactly if it can hold it. -/
theorem count_ends_iff (positive : 0 < modulus) :
    Ends (count modulus bound) 0 ↔ bound < modulus := by
  constructor
  · intro ends
    by_contra wraps
    apply absurd ends
    apply not_ends_of_progress (fun i => i < modulus) _ positive
    intro i small
    refine ⟨(i + 1) % modulus, ?_, Nat.mod_lt _ positive⟩
    rw [count, if_pos (by omega)]
  · intro fits
    exact ends_of_within (count_within fits bound (by omega))

end Loops
