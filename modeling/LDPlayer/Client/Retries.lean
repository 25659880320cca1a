/-
When the manager gives up on the controller.

`com_fail_retry` counts the failures of a whole run: it is raised in
`com_bevent_cb` and never set back, neither there nor when a connection succeeds.
-/
import LDPlayer.Client.Commander

set_option autoImplicit false

namespace LDPlayer

open LengthPrefix

namespace Commander

def tooManyFailures : Fault := .exit "connection to commander fails too many times"

def Event.fails : Event → Bool
  | .com_read_cb _ => false
  | .com_bevent_cb_helper which _ => which.closes

def Event.connected : Event → Bool
  | .com_read_cb _ => false
  | .com_bevent_cb_helper which _ => which.connected

/-- The failures in a row at the end of a history, back to the last connection
that succeeded. -/
def inARow (history : List Event) : Nat :=
  history.foldl (fun count event =>
    if event.fails then count + 1 else if event.connected then 0 else count) 0

private theorem fails_not_connected {event : Event} (fails : event.fails = true) :
    event.connected = false := by
  cases event with
  | com_read_cb data => rfl
  | com_bevent_cb_helper which connects =>
      change which.closes = true at fails
      unfold Which.closes at fails
      rw [decide_eq_true_iff] at fails
      exact Bool.eq_false_iff.mpr fails.1

theorem inARow_concat (history : List Event) (event : Event) :
    inARow (history ++ [event]) =
      if event.fails then inARow history + 1
      else if event.connected then 0 else inARow history := by
  unfold inARow
  rw [List.foldl_append]
  rfl

theorem inARow_le (history : List Event) : inARow history ≤ history.countP Event.fails := by
  induction history using List.reverseRecOn with
  | nil => exact Nat.le_refl 0
  | append_singleton history event ih =>
      rw [inARow_concat, List.countP_append, List.countP_singleton]
      by_cases fails : event.fails = true
      · rw [if_pos fails, if_pos fails]
        omega
      · rw [if_neg fails, if_neg fails]
        split <;> omega

/-- The row is as long as all failures where no connection succeeds behind one. -/
theorem inARow_eq_iff (history : List Event) :
    inARow history = history.countP Event.fails ↔
      ∀ front event back, history = front ++ event :: back → event.connected = true →
        front.countP Event.fails = 0 := by
  induction history using List.reverseRecOn with
  | nil =>
      constructor
      · intro _same front event back impossible
        exact absurd impossible.symm (by simp)
      · exact fun _all => rfl
  | append_singleton history last ih =>
      have bound := inARow_le history
      -- a connection of the longer history is its last event or one of the history before
      have split : (∀ front event back, history ++ [last] = front ++ event :: back →
            event.connected = true → front.countP Event.fails = 0) ↔
          (inARow history = history.countP Event.fails) ∧
            (last.connected = true → history.countP Event.fails = 0) := by
        rw [ih]
        constructor
        · intro all
          refine ⟨?_, fun connected => all history last [] rfl connected⟩
          intro front event back same connected
          exact all front event (back ++ [last]) (by rw [same, List.append_assoc]; rfl) connected
        · intro both front event back same connected
          rcases List.eq_nil_or_concat back with rfl | ⟨others, ending, rfl⟩
          · obtain ⟨rfl, lasts⟩ := List.append_inj' same rfl
            obtain ⟨rfl, _⟩ := List.cons.inj lasts
            exact both.2 connected
          · have regrouped : history ++ [last] = (front ++ event :: others) ++ [ending] := by
              rw [same, List.concat_eq_append, List.append_assoc]
              rfl
            exact both.1 front event others (List.append_inj' regrouped rfl).1 connected
      rw [split, inARow_concat, List.countP_append, List.countP_singleton]
      by_cases fails : last.fails = true
      · rw [if_pos fails, if_pos fails, fails_not_connected fails]
        simp
      · rw [if_neg fails, if_neg fails]
        by_cases connected : last.connected = true
        · rw [if_pos connected]
          constructor
          · intro none
            have zero : history.countP Event.fails = 0 := none.symm
            exact ⟨by omega, fun _again => zero⟩
          · intro both
            exact (both.2 connected).symm
        · rw [if_neg connected]
          simp [connected]

section run

variable {State : Type} (handle : State → Bytes → Except Fault State)

theorem step_counts {c next : Commander State} {event : Event}
    (stepped : step handle c event = .ok next) :
    next.com_fail_retry = c.com_fail_retry + (if event.fails then 1 else 0) ∧
      (c.com_fail_retry < FAIL_RETRY_LIMIT → next.com_fail_retry < FAIL_RETRY_LIMIT) := by
  cases event with
  | com_read_cb data =>
      rw [step_com_read_cb] at stepped
      obtain ⟨reader, _read, rfl⟩ := of_map_eq_ok stepped
      exact ⟨rfl, id⟩
  | com_bevent_cb_helper which connects =>
      change c.com_bevent_cb_helper which connects = .ok next at stepped
      change next.com_fail_retry = c.com_fail_retry + (if which.closes then 1 else 0) ∧ _
      unfold com_bevent_cb_helper com_bevent_cb at stepped
      simp only at stepped
      split at stepped
      · rename_i closes
        rw [if_pos closes]
        split at stepped
        · cases stepped
        · rename_i below
          split at stepped
          · cases stepped
          · obtain rfl := Except.ok.inj stepped
            exact ⟨rfl, fun _start => Nat.not_le.mp below⟩
      · rename_i stays
        rw [if_neg stays]
        obtain rfl := Except.ok.inj stepped
        exact ⟨rfl, id⟩

/-- The counter holds all failures of the run so far, fewer than the limit. -/
theorem run_counts {c final : Commander State} {events : List Event}
    (ran : run handle c events = .ok final) :
    final.com_fail_retry = c.com_fail_retry + events.countP Event.fails ∧
      (c.com_fail_retry < FAIL_RETRY_LIMIT → final.com_fail_retry < FAIL_RETRY_LIMIT) := by
  induction events generalizing c with
  | nil =>
      obtain rfl := Except.ok.inj ran
      exact ⟨rfl, id⟩
  | cons event rest ih =>
      unfold run at ran ih
      rw [List.foldlM_cons] at ran
      obtain ⟨middle, stepped, later⟩ := of_bind_eq_ok ran
      obtain ⟨counted, below⟩ := step_counts handle stepped
      obtain ⟨others, belowLater⟩ := ih later
      refine ⟨?_, fun start => belowLater (below start)⟩
      rw [others, counted, List.countP_cons]
      omega

/-- The process gives up at an event exactly when that is the fifth failure. -/
theorem gives_up_at (c : Commander State) (which : Which) (connects : Bool) :
    c.com_bevent_cb_helper which connects = .error tooManyFailures ↔
      which.closes = true ∧ FAIL_RETRY_LIMIT ≤ c.com_fail_retry + 1 := by
  unfold com_bevent_cb_helper com_bevent_cb
  by_cases closes : which.closes = true
  · rw [if_pos closes, and_iff_right closes]
    by_cases limit : c.com_fail_retry + 1 ≥ FAIL_RETRY_LIMIT
    · rw [if_pos limit]
      exact iff_of_true rfl limit
    · rw [if_neg limit]
      refine iff_of_false ?_ limit
      split
      · intro same
        have texts := Fault.exit.inj (Except.error.inj same)
        exact absurd texts (by decide)
      · intro impossible
        cases impossible
  · rw [if_neg closes]
    refine iff_of_false (fun impossible => ?_) fun both => closes both.1
    cases impossible

/-- At every event of the connection that the run gets to, the process gives up if
this is the fifth failure in a row, and only then. -/
def GivesUpInTime (state : State) (events : List Event) : Prop :=
  ∀ before which connects after c,
    events = before ++ .com_bevent_cb_helper which connects :: after →
    run handle { manager := state } before = .ok c →
    (c.com_bevent_cb_helper which connects = .error tooManyFailures ↔
      which.closes = true ∧ FAIL_RETRY_LIMIT ≤ inARow before + 1)

/-- The manager gives up in time exactly when no connection succeeds between the
first failure and the fifth. -/
theorem gives_up_in_time_iff (state : State) (events : List Event) :
    GivesUpInTime handle state events ↔
      ∀ before which connects after c,
        events = before ++ .com_bevent_cb_helper which connects :: after →
        run handle { manager := state } before = .ok c → which.closes = true →
        before.countP Event.fails + 1 = FAIL_RETRY_LIMIT →
        ∀ front event back, before = front ++ event :: back → event.connected = true →
          front.countP Event.fails = 0 := by
  have counts {before : List Event} {c : Commander State}
      (ran : run handle { manager := state } before = .ok c) :
      c.com_fail_retry = before.countP Event.fails :=
    (run_counts handle ran).1.trans (Nat.zero_add _)
  constructor
  · intro inTime before which connects after c same ran closes fifth
    have decided := inTime before which connects after c same ran
    rw [gives_up_at, counts ran, fifth] at decided
    have row := (decided.mp ⟨closes, Nat.le_refl _⟩).2
    have bound := inARow_le before
    exact (inARow_eq_iff before).mp (by omega)
  · intro apart before which connects after c same ran
    rw [gives_up_at, counts ran]
    apply and_congr_right
    intro closes
    have bound := inARow_le before
    constructor
    · intro limit
      have fifth : before.countP Event.fails + 1 = FAIL_RETRY_LIMIT := by
        have below := (run_counts handle ran).2 (Nat.zero_lt_succ 4)
        rw [counts ran] at below
        omega
      have row := (inARow_eq_iff before).mpr
        (apart before which connects after c same ran closes fifth)
      omega
    · intro limit
      omega

end run

def outage : List Event :=
  [.com_bevent_cb_helper { error := true } true, .com_bevent_cb_helper { connected := true } true]

/-- Five losses, each but the last with a reconnect behind it, end the process. -/
theorem reconnects_give_up :
    run (fun _ _ => .ok ()) { manager := () } (outage ++ outage ++ outage ++ outage) =
        .ok { com_fail_retry := 4, manager := () } ∧
      com_bevent_cb_helper { error := true } true
          ({ com_fail_retry := 4, manager := () } : Commander Unit) = .error tooManyFailures ∧
      inARow (outage ++ outage ++ outage ++ outage) = 0 ∧
      ¬ GivesUpInTime (fun _ _ => .ok ()) ()
        (outage ++ outage ++ outage ++ outage ++ [.com_bevent_cb_helper { error := true } true]) := by
  have ran : run (fun _ _ => .ok ()) { manager := () } (outage ++ outage ++ outage ++ outage) =
      .ok { com_fail_retry := 4, manager := () } := rfl
  have row : inARow (outage ++ outage ++ outage ++ outage) = 0 := by decide
  have stops := (gives_up_at ({ com_fail_retry := 4, manager := () } : Commander Unit)
    { error := true } true).mpr ⟨by decide, by decide⟩
  refine ⟨ran, stops, row, ?_⟩
  intro inTime
  have decided := inTime _ _ _ _ _ rfl ran
  rw [row] at decided
  exact absurd (decided.mp stops).2 (by decide)

end Commander

end LDPlayer
