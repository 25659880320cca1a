/-
Actions on a state that may stop, with rules of pre- and postconditions.

A stop keeps the state it happens in, so that a triple says what holds when an
action ends and what holds when it stops.  Loops have an invariant rule, and a
property that is never regained once it is lost holds behind a loop exactly when
every step of the loop meets its condition.
-/
import Mathlib

set_option autoImplicit false

namespace Actions

variable {Stop State Value Other Item : Type}

def left : EStateM.Result Stop State Value → State
  | .ok _ state => state
  | .error _ state => state

def halt : EStateM.Result Stop State Value → Option Stop
  | .ok _ _ => none
  | .error stop _ => some stop

theorem ended {result : EStateM.Result Stop State Unit} (none : halt result = none) :
    result = .ok () (left result) := by
  cases result with
  | ok value state => rfl
  | error stop state => cases none

theorem halted {result : EStateM.Result Stop State Value} {stop : Stop}
    (some : halt result = some stop) : result = .error stop (left result) := by
  cases result with
  | ok value state => cases some
  | error other state =>
      rw [← Option.some.inj some]
      rfl

/-- From `before`, the action ends with `after` or stops with `stopped`. -/
def Triple (before : State → Prop) (action : EStateM Stop State Value)
    (after : Value → State → Prop) (stopped : Stop → State → Prop) : Prop :=
  ∀ state, before state →
    (∀ value next, action state = .ok value next → after value next) ∧
      ∀ stop next, action state = .error stop next → stopped stop next

/-- The action keeps the invariant, also where it stops. -/
def Keeps (invariant : State → Prop) (stopped : Stop → State → Prop)
    (action : EStateM Stop State Value) : Prop :=
  Triple invariant action (fun _ => invariant) stopped

section rules

variable {before : State → Prop} {after : Value → State → Prop}
variable {stopped : Stop → State → Prop} {invariant : State → Prop}

theorem Triple.pure {value : Value} (holds : ∀ state, before state → after value state) :
    Triple before (Pure.pure value : EStateM Stop State Value) after stopped := by
  intro state start
  constructor
  · intro result next ended
    cases ended
    exact holds state start
  · intro stop next impossible
    cases impossible

theorem Triple.bind {action : EStateM Stop State Value} {rest : Value → EStateM Stop State Other}
    {final : Other → State → Prop} (first : Triple before action after stopped)
    (second : ∀ value, Triple (after value) (rest value) final stopped) :
    Triple before (action >>= rest) final stopped := by
  intro state start
  obtain ⟨ends, stops⟩ := first state start
  change (∀ value next, EStateM.bind action rest state = .ok value next → final value next) ∧
    ∀ stop next, EStateM.bind action rest state = .error stop next → stopped stop next
  unfold EStateM.bind
  cases result : action state with
  | ok value next => exact second value next (ends value next result)
  | error stop next =>
      constructor
      · intro value other impossible
        cases impossible
      · intro other last same
        cases same
        exact stops stop next result

theorem bind_of_ok {action : EStateM Stop State Value} {rest : Value → EStateM Stop State Other}
    {state next : State} {value : Value} (ends : action state = .ok value next) :
    (action >>= rest) state = rest value next := by
  change EStateM.bind action rest state = _
  unfold EStateM.bind
  rw [ends]

theorem bind_of_error {action : EStateM Stop State Value}
    {rest : Value → EStateM Stop State Other} {state next : State} {stop : Stop}
    (stops : action state = .error stop next) : (action >>= rest) state = .error stop next := by
  change EStateM.bind action rest state = _
  unfold EStateM.bind
  rw [stops]

theorem Triple.weaken {action : EStateM Stop State Value} {before' : State → Prop}
    {after' : Value → State → Prop} {stopped' : Stop → State → Prop}
    (triple : Triple before action after stopped)
    (start : ∀ state, before' state → before state)
    (ends : ∀ value state, after value state → after' value state)
    (stops : ∀ stop state, stopped stop state → stopped' stop state) :
    Triple before' action after' stopped' := by
  intro state holds
  obtain ⟨first, second⟩ := triple state (start state holds)
  exact ⟨fun value next ended => ends value next (first value next ended),
    fun stop next halted => stops stop next (second stop next halted)⟩

theorem Triple.assume {action : EStateM Stop State Value} {condition : Prop}
    (triple : condition → Triple before action after stopped) :
    Triple (fun state => condition ∧ before state) action after stopped := by
  intro state start
  exact triple start.1 state start.2

theorem Keeps.pure {value : Value} :
    Keeps invariant stopped (Pure.pure value : EStateM Stop State Value) :=
  Triple.pure fun _state holds => holds

theorem Keeps.left {action : EStateM Stop State Value} {holds : State → Prop}
    (keeps : Keeps invariant stopped action) (ends : ∀ state, invariant state → holds state)
    (stops : ∀ stop state, stopped stop state → holds state) {state : State}
    (start : invariant state) : holds (left (action state)) := by
  obtain ⟨first, second⟩ := keeps state start
  cases result : action state with
  | ok value next => exact ends next (first value next result)
  | error stop next => exact stops stop next (second stop next result)

/-- What holds wherever the action leaves the state, at its end and at a stop. -/
theorem Keeps.of_left {action : EStateM Stop State Value}
    (keeps : ∀ state, invariant state → invariant (Actions.left (action state))) :
    Keeps invariant (fun _stop => invariant) action := by
  intro state start
  have final := keeps state start
  constructor
  · intro value next ended
    rw [ended] at final
    exact final
  · intro stop next stopped
    rw [stopped] at final
    exact final

theorem Keeps.bind {action : EStateM Stop State Value} {rest : Value → EStateM Stop State Other}
    (first : Keeps invariant stopped action) (second : ∀ value, Keeps invariant stopped (rest value)) :
    Keeps invariant stopped (action >>= rest) :=
  Triple.bind first second

end rules

/-! ### Actions that end -/

/-- From this state the action does not stop. -/
def Ends (action : EStateM Stop State Value) (state : State) : Prop :=
  ∃ value next, action state = .ok value next

theorem ends_pure (value : Value) (state : State) :
    Ends (pure value : EStateM Stop State Value) state :=
  ⟨value, state, rfl⟩

theorem not_ends {action : EStateM Stop State Value} {state next : State} {stop : Stop}
    (stops : action state = .error stop next) : ¬ Ends action state := by
  rintro ⟨value, other, ends⟩
  rw [stops] at ends
  cases ends

theorem ends_bind_of_ok {action : EStateM Stop State Value}
    {rest : Value → EStateM Stop State Other} {state next : State} {value : Value}
    (ends : action state = .ok value next) :
    Ends (action >>= rest) state ↔ Ends (rest value) next := by
  unfold Ends
  rw [bind_of_ok ends]

/-- Where the first action ends, the whole ends as the second does; `holds` says so
of every state that the first leads to. -/
theorem ends_bind_iff {action : EStateM Stop State Value}
    {rest : Value → EStateM Stop State Other} {state : State} {first second : Prop}
    (ends : Ends action state ↔ first)
    (rests : ∀ value next, action state = .ok value next → (Ends (rest value) next ↔ second)) :
    Ends (action >>= rest) state ↔ first ∧ second := by
  cases result : action state with
  | ok value next =>
      have begun := ends.mp ⟨value, next, result⟩
      rw [ends_bind_of_ok result, rests value next result, and_iff_right begun]
  | error stop next =>
      have stuck : ¬ first := fun begun => not_ends result (ends.mpr begun)
      exact iff_of_false (not_ends (bind_of_error result)) fun both => stuck both.1

/-! ### Loops -/

def each (body : Item → EStateM Stop State Unit) : List Item → EStateM Stop State Unit
  | [] => pure ()
  | item :: rest => body item >>= fun _ => each body rest

/-- Every step of the loop is good in the state it begins in. -/
def EachStep (body : Item → EStateM Stop State Unit) (good : Item → State → Prop) :
    List Item → State → Prop
  | [], _ => True
  | item :: rest, state =>
      good item state ∧ ∀ next, body item state = .ok () next → EachStep body good rest next

variable {body : Item → EStateM Stop State Unit} {stopped : Stop → State → Prop}
variable {invariant holds : State → Prop} {good : Item → State → Prop}

theorem each_cons (item : Item) (rest : List Item) (state : State) :
    each body (item :: rest) state =
      match body item state with
      | .ok _ next => each body rest next
      | .error stop next => .error stop next := by
  change EStateM.bind (body item) (fun _done => each body rest) state = _
  unfold EStateM.bind
  cases body item state with
  | ok value next => rfl
  | error stop next => rfl

theorem Keeps.each {items : List Item}
    (keeps : ∀ item ∈ items, Keeps invariant stopped (body item)) :
    Keeps invariant stopped (each body items) := by
  induction items with
  | nil => exact Keeps.pure
  | cons item rest ih =>
      apply Keeps.bind (keeps item List.mem_cons_self)
      intro _done
      exact ih fun other member => keeps other (List.mem_cons_of_mem item member)

/-- What holds behind a loop held before it. -/
theorem each_regains {items : List Item}
    (keeps : ∀ item ∈ items, Keeps invariant stopped (body item))
    (regains : ∀ item ∈ items, ∀ state, invariant state → holds (left (body item state)) →
      holds state)
    (state : State) (start : invariant state) (final : holds (left (each body items state))) :
    holds state := by
  induction items generalizing state with
  | nil => exact final
  | cons item rest ih =>
      apply regains item List.mem_cons_self state start
      have kept := keeps item List.mem_cons_self state start
      rw [each_cons] at final
      cases result : body item state with
      | ok value next =>
          rw [result] at final
          exact ih (fun other member => keeps other (List.mem_cons_of_mem item member))
            (fun other member => regains other (List.mem_cons_of_mem item member)) next
            (kept.1 value next result) final
      | error stop next =>
          rw [result] at final
          exact final

/-- A property that is never regained holds behind a loop exactly when each step
of the loop is one that keeps it. -/
theorem each_holds_iff {items : List Item}
    (keeps : ∀ item ∈ items, Keeps invariant stopped (body item))
    (regains : ∀ item ∈ items, ∀ state, invariant state → holds (left (body item state)) →
      holds state)
    (decides : ∀ item ∈ items, ∀ state, invariant state → holds state →
      (holds (left (body item state)) ↔ good item state))
    (state : State) (start : invariant state) (before : holds state) :
    holds (left (each body items state)) ↔ EachStep body good items state := by
  induction items generalizing state with
  | nil => exact ⟨fun _holds => trivial, fun _steps => before⟩
  | cons item rest ih =>
      have decided := decides item List.mem_cons_self state start before
      have kept := keeps item List.mem_cons_self state start
      have keepsRest := fun other member => keeps other (List.mem_cons_of_mem item member)
      have regainsRest := fun other member => regains other (List.mem_cons_of_mem item member)
      rw [each_cons]
      unfold EachStep
      cases result : body item state with
      | ok value next =>
          rw [result] at decided
          have middleInvariant := kept.1 value next result
          have follows := ih keepsRest regainsRest
            (fun other member => decides other (List.mem_cons_of_mem item member)) next
            middleInvariant
          constructor
          · intro final
            have middle := each_regains keepsRest regainsRest next middleInvariant final
            refine ⟨decided.mp middle, ?_⟩
            intro other same
            cases same
            exact (follows middle).mp final
          · intro steps
            have middle := decided.mpr steps.1
            exact (follows middle).mpr (steps.2 next rfl)
      | error stop next =>
          rw [result] at decided
          constructor
          · intro final
            refine ⟨decided.mp final, ?_⟩
            intro other impossible
            cases impossible
          · intro steps
            exact decided.mpr steps.1

/-- A loop ends exactly when each step meets the condition under which it ends. -/
theorem each_ends_iff {items : List Item}
    (keeps : ∀ item ∈ items, Keeps invariant stopped (body item))
    (decides : ∀ item ∈ items, ∀ state, invariant state →
      (Ends (body item) state ↔ good item state))
    (state : State) (start : invariant state) :
    Ends (each body items) state ↔ EachStep body good items state := by
  induction items generalizing state with
  | nil => exact iff_of_true (ends_pure () state) trivial
  | cons item rest ih =>
      have decided := decides item List.mem_cons_self state start
      have follows (next : State) (holds : invariant next) :=
        ih (fun other member => keeps other (List.mem_cons_of_mem item member))
          (fun other member => decides other (List.mem_cons_of_mem item member)) next holds
      unfold EachStep
      cases result : body item state with
      | ok value next =>
          have kept := (keeps item List.mem_cons_self state start).1 value next result
          change Ends (body item >>= fun _done => each body rest) state ↔ _
          rw [ends_bind_of_ok result, follows next kept]
          constructor
          · intro steps
            refine ⟨decided.mp ⟨value, next, result⟩, ?_⟩
            intro other same
            cases same
            exact steps
          · exact fun steps => steps.2 next rfl
      | error stop next =>
          have stuck : ¬ good item state := fun meets => not_ends result (decided.mpr meets)
          exact iff_of_false (not_ends (bind_of_error result)) fun steps => stuck steps.1

theorem each_ends_iff_forall {items : List Item} {fits : Item → Prop}
    (keeps : ∀ item ∈ items, Keeps invariant stopped (body item))
    (decides : ∀ item ∈ items, ∀ state, invariant state → (Ends (body item) state ↔ fits item))
    (state : State) (start : invariant state) :
    Ends (each body items) state ↔ ∀ item ∈ items, fits item := by
  induction items generalizing state with
  | nil => exact iff_of_true (ends_pure () state) fun item member => absurd member List.not_mem_nil
  | cons item rest ih =>
      rw [List.forall_mem_cons]
      apply ends_bind_iff (decides item List.mem_cons_self state start)
      intro value next ended
      exact ih (fun other member => keeps other (List.mem_cons_of_mem item member))
        (fun other member => decides other (List.mem_cons_of_mem item member)) next
        ((keeps item List.mem_cons_self state start).1 value next ended)

theorem left_bind_regains {action : EStateM Stop State Value}
    {rest : Value → EStateM Stop State Other} {state : State}
    (regains : ∀ value next, action state = .ok value next → holds (left (rest value next)) →
      holds next)
    (final : holds (left ((action >>= rest) state))) : holds (left (action state)) := by
  cases result : action state with
  | ok value next =>
      rw [bind_of_ok result] at final
      exact regains value next result final
  | error stop next =>
      rw [bind_of_error result] at final
      exact final

/-- Steps that neither lose nor regain a property do not matter behind others. -/
theorem left_bind_iff {action : EStateM Stop State Value} {rest : Value → EStateM Stop State Other}
    (same : ∀ value state, holds (left (rest value state)) ↔ holds state) (state : State) :
    holds (left ((action >>= rest) state)) ↔ holds (left (action state)) := by
  change holds (left (EStateM.bind action rest state)) ↔ _
  unfold EStateM.bind
  cases action state with
  | ok value next => exact same value next
  | error stop next => exact Iff.rfl

end Actions
