/-
Runs of a step function that may fault.

The admission predicate collects what the environment promises about an event
in the state where it happens.  A run consists of admitted events only and none
of its steps faults, so an invariant is proved once for a step and then holds
of every state that a run reaches.
-/
import Mathlib

set_option autoImplicit false

namespace Runs

variable {State Event Fault : Type}

inductive Run (step : State → Event → Except Fault State)
    (admits : State → Event → Prop) : State → List Event → State → Prop
  | done (state : State) : Run step admits state [] state
  | next {state middle final : State} {event : Event} {rest : List Event} :
      admits state event → step state event = .ok middle →
      Run step admits middle rest final → Run step admits state (event :: rest) final

variable {step : State → Event → Except Fault State}
variable {admits : State → Event → Prop}

/-- The induction rule: what every admitted step keeps, every run keeps. -/
theorem Run.invariant {invariant : State → Prop}
    (keeps : ∀ state event next, invariant state → admits state event →
      step state event = .ok next → invariant next)
    {start final : State} {events : List Event}
    (run : Run step admits start events final) (holds : invariant start) :
    invariant final := by
  induction run with
  | done state => exact holds
  | next admitted stepped _rest ih => exact ih (keeps _ _ _ holds admitted stepped)

/-- The same rule where the invariant also shows that no admitted step faults. -/
theorem Run.invariant_of_progress {invariant : State → Prop}
    (keeps : ∀ state event, invariant state → admits state event →
      ∃ next, step state event = .ok next ∧ invariant next)
    {start final : State} {events : List Event}
    (run : Run step admits start events final) (holds : invariant start) :
    invariant final := by
  apply run.invariant _ holds
  intro state event next before admitted stepped
  obtain ⟨target, reached, after⟩ := keeps state event before admitted
  obtain rfl := Except.ok.inj (stepped.symm.trans reached)
  exact after

theorem Run.unrestricted {start final : State} {events : List Event}
    (run : Run step admits start events final) :
    Run step (fun _ _ => True) start events final := by
  induction run with
  | done state => exact .done state
  | next _admitted stepped _rest ih => exact .next trivial stepped ih

theorem Run.append {start middle final : State} {events later : List Event}
    (first : Run step admits start events middle) (second : Run step admits middle later final) :
    Run step admits start (events ++ later) final := by
  induction first with
  | done state => exact second
  | next admitted stepped _rest ih => exact .next admitted stepped (ih second)

theorem Run.single {state next : State} {event : Event} (admitted : admits state event)
    (stepped : step state event = .ok next) : Run step admits state [event] next :=
  .next admitted stepped (.done next)

/-- A mark that some events set and none clears. -/
theorem Run.marked_iff (marked : State → Prop) (marks : Event → Prop)
    (sets : ∀ state event next, step state event = .ok next →
      (marked next ↔ marked state ∨ marks event))
    {start final : State} {events : List Event} (run : Run step admits start events final) :
    marked final ↔ marked start ∨ ∃ event ∈ events, marks event := by
  induction run with
  | done state => simp
  | next _admitted stepped _rest ih =>
      rw [ih, sets _ _ _ stepped, List.exists_mem_cons_iff, or_assoc]

def Leads (step : State → Event → Except Fault State) (admits : State → Event → Prop)
    (kind : Event → Prop) (next state : State) : Prop :=
  ∃ event, kind event ∧ admits state event ∧ step state event = .ok next

/-- Events that lower a rank cannot go on forever. -/
theorem leads_wellFounded {Rank : Type} [LT Rank] [WellFoundedLT Rank] {kind : Event → Prop}
    (rank : State → Rank)
    (lowers : ∀ state event next, kind event → admits state event →
      step state event = .ok next → rank next < rank state) :
    WellFounded (Leads step admits kind) := by
  apply Subrelation.wf _ (InvImage.wf rank wellFounded_lt)
  intro next state leads
  obtain ⟨event, isKind, admitted, stepped⟩ := leads
  exact lowers state event next isKind admitted stepped

/-- Every step of the run meets `good` in the state where it is taken. -/
def AllSteps (step : State → Event → Except Fault State) (good : State → Event → Prop)
    (start : State) (events : List Event) : Prop :=
  ∀ before event after state, events = before ++ event :: after →
    Run step (fun _ _ => True) start before state → good state event

/-- Every state that the run passes through, its start included, meets `holds`. -/
def AllStates (step : State → Event → Except Fault State) (holds : State → Prop)
    (start : State) (events : List Event) : Prop :=
  ∀ before after state, events = before ++ after →
    Run step (fun _ _ => True) start before state → holds state

theorem allSteps_cons {good : State → Event → Prop} {start middle : State}
    {event : Event} {rest : List Event} (stepped : step start event = .ok middle) :
    AllSteps step good start (event :: rest) ↔
      good start event ∧ AllSteps step good middle rest := by
  constructor
  · intro all
    refine ⟨all [] event rest start rfl (.done start), ?_⟩
    intro before later after state same run
    exact all (event :: before) later after state (by rw [same]; rfl)
      (.next trivial stepped run)
  · intro both before later after state same run
    obtain ⟨first, others⟩ := both
    cases run with
    | done _ =>
        obtain ⟨rfl, rfl⟩ := List.cons.inj same
        exact first
    | next _ stepped' run' =>
        obtain ⟨rfl, rest'⟩ := List.cons.inj same
        have middles := Except.ok.inj (stepped.symm.trans stepped')
        subst middles
        exact others _ later after state rest' run'

theorem allSteps_nil (good : State → Event → Prop) (start : State) :
    AllSteps step good start [] := by
  intro before event after state same
  simp at same

private theorem allStates_cons {holds : State → Prop} {start middle : State}
    {event : Event} {rest : List Event} (stepped : step start event = .ok middle) :
    AllStates step holds start (event :: rest) ↔
      holds start ∧ AllStates step holds middle rest := by
  constructor
  · intro all
    refine ⟨all [] (event :: rest) start rfl (.done start), ?_⟩
    intro before after state same run
    exact all (event :: before) after state (by rw [same]; rfl)
      (.next trivial stepped run)
  · intro both before after state same run
    obtain ⟨first, others⟩ := both
    cases run with
    | done _ => exact first
    | next _ stepped' run' =>
        obtain ⟨rfl, rest'⟩ := List.cons.inj same
        have middles := Except.ok.inj (stepped.symm.trans stepped')
        subst middles
        exact others _ after state rest' run'

/-- Two conditions on steps that agree under an invariant, kept by the steps
that meet them, select the same runs. -/
theorem Run.allSteps_congr {invariant : State → Prop} {good other : State → Event → Prop}
    (agree : ∀ state event next, invariant state → admits state event →
      step state event = .ok next → (other state event ↔ good state event))
    (keeps : ∀ state event next, invariant state → admits state event →
      step state event = .ok next → good state event → invariant next)
    {start final : State} {events : List Event}
    (run : Run step admits start events final) (initial : invariant start) :
    AllSteps step other start events ↔ AllSteps step good start events := by
  induction run with
  | done state =>
      constructor
      · exact fun _all => allSteps_nil good state
      · exact fun _all => allSteps_nil other state
  | next admitted stepped _rest ih =>
      rw [allSteps_cons stepped, allSteps_cons stepped, agree _ _ _ initial admitted stepped]
      apply and_congr_right
      intro goodStep
      exact ih (keeps _ _ _ initial admitted stepped goodStep)

/-- What admitted steps keep that meet a condition, a run keeps whose steps all do. -/
theorem Run.invariant_of_allSteps {invariant : State → Prop} {good : State → Event → Prop}
    (keeps : ∀ state event next, invariant state → admits state event →
      step state event = .ok next → good state event → invariant next)
    {start final : State} {events : List Event}
    (run : Run step admits start events final) (initial : invariant start)
    (all : AllSteps step good start events) : invariant final := by
  induction run with
  | done state => exact initial
  | next admitted stepped _rest ih =>
      rw [allSteps_cons stepped] at all
      exact ih (keeps _ _ _ initial admitted stepped all.1) all.2

/-- Where one step decides the property of its target exactly, and good steps
keep the invariant, a whole run has the property throughout exactly when each
of its steps is good. -/
theorem Run.allStates_iff_allSteps {invariant holds : State → Prop}
    {good : State → Event → Prop}
    (implied : ∀ state, invariant state → holds state)
    (decides : ∀ state event next, invariant state → admits state event →
      step state event = .ok next → (holds next ↔ good state event))
    (keeps : ∀ state event next, invariant state → admits state event →
      step state event = .ok next → good state event → invariant next)
    {start final : State} {events : List Event}
    (run : Run step admits start events final) (initial : invariant start) :
    AllStates step holds start events ↔ AllSteps step good start events := by
  induction run with
  | done state =>
      constructor
      · exact fun _all => allSteps_nil good state
      · intro _all before after other same run
        have empty : before = [] := by
          cases before with
          | nil => rfl
          | cons head tail => cases same
        subst empty
        cases run
        exact implied _ initial
  | next admitted stepped _rest ih =>
      rw [allStates_cons stepped, allSteps_cons stepped]
      constructor
      · intro both
        obtain ⟨_first, others⟩ := both
        have nextHolds := others [] _ _ rfl (.done _)
        have goodStep := (decides _ _ _ initial admitted stepped).mp nextHolds
        exact ⟨goodStep, (ih (keeps _ _ _ initial admitted stepped goodStep)).mp others⟩
      · intro both
        obtain ⟨goodStep, others⟩ := both
        exact ⟨implied _ initial,
          (ih (keeps _ _ _ initial admitted stepped goodStep)).mpr others⟩

def Measured {Measure : Type} (step : State → Event → Except Fault State)
    (measure : State → Measure) (start : State) (events : List Event) : Set Measure :=
  {value | ∃ before after state, events = before ++ after ∧
    Run step (fun _ _ => True) start before state ∧ measure state = value}

private theorem mem_measured_cons {Measure : Type} {measure : State → Measure}
    {start middle : State}
    {event : Event} {rest : List Event} (stepped : step start event = .ok middle)
    (value : Measure) :
    value ∈ Measured step measure start (event :: rest) ↔
      value = measure start ∨ value ∈ Measured step measure middle rest := by
  constructor
  · intro measured
    obtain ⟨before, after, state, same, run, rfl⟩ := measured
    cases run with
    | done _ => exact Or.inl rfl
    | next _ stepped' run' =>
        obtain ⟨rfl, rest'⟩ := List.cons.inj same
        have middles := Except.ok.inj (stepped.symm.trans stepped')
        subst middles
        exact Or.inr ⟨_, after, state, rest', run', rfl⟩
  · intro either
    rcases either with rfl | ⟨before, after, state, rfl, run, rfl⟩
    · exact ⟨[], event :: rest, start, rfl, .done start, rfl⟩
    · exact ⟨event :: before, after, state, rfl, .next trivial stepped run, rfl⟩

/-- A component that every step raises to the measure of its target, where it is
below, is the greatest value that the measure has had. -/
theorem Run.isGreatest {Measure : Type} [LinearOrder Measure] {measure peak : State → Measure}
    {invariant : State → Prop}
    (raises : ∀ state event next, invariant state → admits state event →
      step state event = .ok next → invariant next ∧ peak next = max (peak state) (measure next))
    {start final : State} {events : List Event} (run : Run step admits start events final)
    (holds : invariant start) (initial : peak start = measure start) :
    IsGreatest (Measured step measure start events) (peak final) := by
  have bounds : ∀ {start final : State} {events : List Event},
      Run step admits start events final → invariant start → measure start ≤ peak start →
      peak start ≤ peak final ∧ (∀ value ∈ Measured step measure start events,
          value ≤ peak final) ∧
        (peak final = peak start ∨ peak final ∈ Measured step measure start events) := by
    intro start final events run
    induction run with
    | done state =>
        intro _holds below
        refine ⟨le_refl _, ?_, Or.inl rfl⟩
        intro value measured
        obtain ⟨before, after, other, same, run, rfl⟩ := measured
        rw [(List.append_eq_nil_iff.mp same.symm).1] at run
        cases run
        exact below
    | @next state middle final event rest admitted stepped _run ih =>
        intro holds below
        obtain ⟨kept, raised⟩ := raises _ _ _ holds admitted stepped
        have above : measure middle ≤ peak middle := by rw [raised]; exact le_max_right _ _
        obtain ⟨later, bound, reached⟩ := ih kept above
        have first : peak state ≤ peak middle := by rw [raised]; exact le_max_left _ _
        refine ⟨first.trans later, ?_, ?_⟩
        · intro value measured
          rcases (mem_measured_cons stepped value).mp measured with rfl | behind
          · exact below.trans (first.trans later)
          · exact bound value behind
        · rcases reached with same | behind
          · rcases max_choice (peak state) (measure middle) with kept | taken
            · exact Or.inl (same.trans (raised.trans kept))
            · refine Or.inr ((mem_measured_cons stepped _).mpr (Or.inr ?_))
              exact ⟨[], rest, middle, rfl, .done middle, (same.trans (raised.trans taken)).symm⟩
          · exact Or.inr ((mem_measured_cons stepped _).mpr (Or.inr behind))
  obtain ⟨_later, bound, reached⟩ := bounds run holds (le_of_eq initial.symm)
  refine ⟨?_, bound⟩
  rcases reached with same | measured
  · exact ⟨[], events, start, rfl, .done start, (same.trans initial).symm⟩
  · exact measured

end Runs
