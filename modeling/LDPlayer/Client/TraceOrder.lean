/-
The order in which the queries of a replay are sent.

Messages are handled one after another, each sent at once or left to its timer;
timer callbacks run between the callbacks that handle messages, in order of
deadline and in order of insertion where deadlines are equal.  A message that
comes late overtakes whatever still waits.
-/
import LDPlayer.Client.Deadlines
import LDPlayer.Foundation.Runs
import LDPlayer.Receivers

set_option autoImplicit false

namespace LDPlayer

open Timeval

/-- A timer event of the worker, for the message at this position of the sequence. -/
structure Timer where
  deadline : Int
  position : Nat
  deriving DecidableEq, Repr

namespace Timer

/-- The order of the callbacks, strict so that an equal deadline goes behind. -/
def Before (first second : Timer) : Prop := first.deadline < second.deadline

instance : DecidableRel Before := fun first second =>
  inferInstanceAs (Decidable (first.deadline < second.deadline))

/-- A timer that is due no earlier than all others is the last one. -/
theorem orderedInsert_last {timer : Timer} {queue : List Timer}
    (last : ∀ other ∈ queue, other.deadline ≤ timer.deadline) :
    queue.orderedInsert Before timer = queue ++ [timer] := by
  induction queue with
  | nil => rfl
  | cons head rest ih =>
      have behind : ¬ Before timer head := Int.not_lt.mpr (last head List.mem_cons_self)
      rw [List.orderedInsert_of_not_le Before rest behind,
        ih (fun other member => last other (List.mem_cons_of_mem head member)), List.cons_append]

end Timer

/-- The worker, the timers that libevent holds for it, and the positions of the
messages for which `send_query` was called so far.  `latest` is the trace time of
the last message. -/
structure Timed where
  worker : Schedule
  pending : List Timer := []
  sent : List Nat := []
  handled : Nat := 0
  latest : Option Timeval := none

namespace Timed

inductive Event where
  | message (payload : Bytes)
  | timeout

/-- The effect of a message: the call, or a timer added at the last clock reading.  Its
deadline is assumed to be that reading and the delay; libevent adds the delay to a clock
reading of its own, which it may have cached. -/
def perform (now_ts : Timeval) (position : Nat) (t : Timed) : Effect → Timed
  | .send_query _ _ => { t with sent := t.sent ++ [position] }
  | .timer_add tv _ _ =>
      { t with
        pending := t.pending.orderedInsert Timer.Before
          { deadline := now_ts.micros + tv.micros, position := position } }

def manager_message (codec : Codec) (clock : Nat → Timeval) (payload : Bytes) (t : Timed) :
    Except Fault Timed :=
  match t.worker.manager_message codec clock payload with
  | .error fault => .error fault
  | .ok (worker, effects) =>
      let taken :=
        { t with
          worker := worker
          handled := t.handled + 1
          latest := some (codec.ParseFromArray payload).q_ts }
      .ok (effects.foldl (perform (clock (worker.clock_reads - 1)) t.handled) taken)

def send_query_helper (t : Timed) : Timed :=
  match t.pending with
  | [] => t
  | timer :: rest =>
      { t with
        worker := { t.worker with num_pending_event := t.worker.num_pending_event - 1 }
        pending := rest
        sent := t.sent ++ [timer.position] }

def step (codec : Codec) (clock : Nat → Timeval) (t : Timed) : Event → Except Fault Timed
  | .message payload => t.manager_message codec clock payload
  | .timeout => .ok t.send_query_helper

/-- Normal messages in the order of the trace; timeouts where a timer is pending. -/
def admits (codec : Codec) (t : Timed) : Event → Prop
  | .message payload =>
      (codec.ParseFromArray payload).sync_time = false ∧
        (codec.ParseFromArray payload).q_ts.Normalised ∧
        ∀ earlier, t.latest = some earlier →
          earlier.micros ≤ (codec.ParseFromArray payload).q_ts.micros
  | .timeout => t.pending ≠ []

structure Initial (t : Timed) : Prop where
  normal : t.worker.Normal
  set : t.worker.start_trace_ts ≠ zero
  no_timer : t.pending = []
  none_sent : t.sent = []
  none_handled : t.handled = 0
  no_latest : t.latest = none

/-- The queries sent are the first ones of the sequence, in its order. -/
def InOrder (t : Timed) : Prop := t.sent = List.range t.sent.length

instance (t : Timed) : Decidable t.InOrder := inferInstanceAs (Decidable (_ = _))

/-- No message whose deadline has passed meets an earlier one on its timer. -/
def OvertakesNone (codec : Codec) (clock : Nat → Timeval) (t : Timed) : Event → Prop
  | .message payload =>
      ¬ (t.worker.Passed clock (codec.ParseFromArray payload).q_ts ∧ t.pending ≠ [])
  | .timeout => True

/-- What steps keep that overtake none: the timers hold the messages that are not
sent yet, in their order and by deadline. -/
structure Waiting (t : Timed) : Prop where
  normal : t.worker.Normal
  set : t.worker.start_trace_ts ≠ zero
  behind : t.sent ++ t.pending.map Timer.position = List.range t.handled
  due : ∀ timer ∈ t.pending, ∃ earlier, t.latest = some earlier ∧
    timer.deadline ≤ t.worker.deadline earlier
  fast : t.worker.non_wait = true → t.pending = []

theorem Initial.waiting {t : Timed} (initial : t.Initial) : t.Waiting where
  normal := initial.normal
  set := initial.set
  behind := by rw [initial.no_timer, initial.none_sent, initial.none_handled]; rfl
  due := by
    rw [initial.no_timer]
    intro timer member
    cases member
  fast := fun _ => initial.no_timer

private theorem front_of_range {front back : List Nat} {count : Nat}
    (split : front ++ back = List.range count) : front = List.range front.length := by
  have taken := congrArg (List.take front.length) split
  rw [List.take_left, List.take_range] at taken
  have shorter := congrArg List.length split
  rw [List.length_append, List.length_range] at shorter
  rw [Nat.min_eq_left (by omega)] at taken
  exact taken

theorem Waiting.inOrder {t : Timed} (waiting : t.Waiting) : t.InOrder :=
  front_of_range waiting.behind

section steps

variable {codec : Codec} {clock : Nat → Timeval}

theorem manager_message_cases (clockNormal : ∀ reading, (clock reading).Normalised)
    {t next : Timed} {payload : Bytes} (waiting : t.Waiting)
    (admitted : t.admits codec (.message payload))
    (stepped : t.manager_message codec clock payload = .ok next) :
    t.worker.Keeps next.worker ∧ next.handled = t.handled + 1 ∧
      next.latest = some (codec.ParseFromArray payload).q_ts ∧
      (((t.worker.non_wait = true ∨ t.worker.Passed clock (codec.ParseFromArray payload).q_ts) ∧
        next.sent = t.sent ++ [t.handled] ∧ next.pending = t.pending) ∨
      (t.worker.non_wait = false ∧ ¬ t.worker.Passed clock (codec.ParseFromArray payload).q_ts ∧
        next.sent = t.sent ∧
        next.pending = t.pending ++
          [{ deadline := t.worker.deadline (codec.ParseFromArray payload).q_ts
             position := t.handled }])) := by
  obtain ⟨normalMessage, query, later⟩ := admitted
  have taken : ∀ result, t.worker.normal_message clock (codec.ParseFromArray payload)
      (codec.ParseFromArray payload).q_ts = result →
      t.worker.manager_message codec clock payload = result := by
    intro result same
    unfold Schedule.manager_message
    simp only [normalMessage, Bool.false_eq_true, if_false]
    exact same
  unfold manager_message at stepped
  rcases Schedule.normal_message_cases clockNormal waiting.normal waiting.set
      (codec.ParseFromArray payload) query with
    ⟨worker, count, now, keeps, done⟩ | ⟨worker, count, fast, waits, keeps, reads, done⟩
  · rw [taken _ done] at stepped
    obtain rfl := Except.ok.inj stepped
    exact ⟨keeps, rfl, rfl, Or.inl ⟨now, rfl, rfl⟩⟩
  · rw [taken _ done] at stepped
    obtain rfl := Except.ok.inj stepped
    refine ⟨keeps, rfl, rfl, Or.inr ⟨fast, waits, rfl, ?_⟩⟩
    have expires : (clock (worker.clock_reads - 1)).micros +
        (t.worker.time_left (codec.ParseFromArray payload).q_ts
          (clock (t.worker.clock_reads + 1))).micros =
        t.worker.deadline (codec.ParseFromArray payload).q_ts := by
      rw [reads]
      exact t.worker.micros_time_left _ (clock (t.worker.clock_reads + 1))
    change t.pending.orderedInsert Timer.Before _ = _
    rw [expires]
    apply Timer.orderedInsert_last
    intro timer member
    obtain ⟨earlier, latest, due⟩ := waiting.due timer member
    have ordered := later earlier latest
    unfold Schedule.deadline at due ⊢
    change _ ≤ t.worker.start_real_ts.micros + _
    omega

theorem Waiting.message (clockNormal : ∀ reading, (clock reading).Normalised) {t next : Timed}
    {payload : Bytes} (waiting : t.Waiting) (admitted : t.admits codec (.message payload))
    (stepped : t.manager_message codec clock payload = .ok next)
    (overtakesNone : t.OvertakesNone codec clock (.message payload)) : next.Waiting := by
  obtain ⟨keeps, handled, latest, outcome⟩ :=
    manager_message_cases clockNormal waiting admitted stepped
  have normal : next.worker.Normal := by
    unfold Schedule.Normal
    rw [keeps.start_trace_ts, keeps.start_real_ts]
    exact waiting.normal
  have set : next.worker.start_trace_ts ≠ zero := by
    rw [keeps.start_trace_ts]
    exact waiting.set
  have due : ∀ timer ∈ t.pending, ∃ earlier, next.latest = some earlier ∧
      timer.deadline ≤ next.worker.deadline earlier := by
    intro timer member
    obtain ⟨earlier, known, bound⟩ := waiting.due timer member
    refine ⟨_, latest, ?_⟩
    have ordered := admitted.2.2 earlier known
    rw [keeps.deadline]
    unfold Schedule.deadline at bound ⊢
    omega
  rcases outcome with ⟨now, sent, pending⟩ | ⟨fast, waits, sent, pending⟩
  · have none : t.pending = [] := by
      rcases now with chosen | passed
      · exact waiting.fast chosen
      · by_contra some
        exact overtakesNone ⟨passed, some⟩
    have all := waiting.behind
    rw [none, List.map_nil, List.append_nil] at all
    exact
      { normal := normal
        set := set
        behind := by
          rw [pending, none, List.map_nil, List.append_nil, sent, all, handled, List.range_succ]
        due := by rw [pending]; exact due
        fast := fun _ => pending.trans none }
  · exact
      { normal := normal
        set := set
        behind := by
          rw [pending, sent, handled, List.map_append, ← List.append_assoc, waiting.behind,
            List.range_succ]
          rfl
        due := by
          rw [pending]
          intro timer member
          rcases List.mem_append.mp member with waits | last
          · exact due timer waits
          · rw [List.mem_singleton.mp last]
            exact ⟨_, latest, Int.le_of_eq (keeps.deadline _).symm⟩
        fast := by
          intro chosen
          rw [keeps.non_wait, fast] at chosen
          cases chosen }

/-- A message that is sent at once past a timer breaks the order. -/
theorem overtakesNone_of_inOrder (clockNormal : ∀ reading, (clock reading).Normalised)
    {t next : Timed} {payload : Bytes} (waiting : t.Waiting)
    (admitted : t.admits codec (.message payload))
    (stepped : t.manager_message codec clock payload = .ok next) (inOrder : next.InOrder) :
    t.OvertakesNone codec clock (.message payload) := by
  intro overtakes
  obtain ⟨passed, some⟩ := overtakes
  obtain ⟨_keeps, _handled, _latest, outcome⟩ :=
    manager_message_cases clockNormal waiting admitted stepped
  rcases outcome with ⟨_now, sent, _pending⟩ | ⟨_fast, waits, _sent, _pending⟩
  · unfold InOrder at inOrder
    have front : t.sent = List.range t.sent.length := waiting.inOrder
    rw [sent, List.length_append, List.length_singleton, List.range_succ, ← front] at inOrder
    have position := List.cons.inj (List.append_cancel_left inOrder)
    have counted := congrArg List.length waiting.behind
    have positive := List.length_pos_of_ne_nil some
    rw [List.length_append, List.length_map, List.length_range] at counted
    omega
  · exact waits passed

theorem Waiting.timeout {t : Timed} (waiting : t.Waiting) : t.send_query_helper.Waiting := by
  unfold send_query_helper
  cases pending : t.pending with
  | nil => exact waiting
  | cons timer rest =>
      have behind := waiting.behind
      rw [pending, List.map_cons] at behind
      exact
        { normal := waiting.normal
          set := waiting.set
          behind := by
            change (t.sent ++ [timer.position]) ++ rest.map Timer.position = _
            rw [List.append_assoc, List.singleton_append]
            exact behind
          due := by
            intro other member
            exact waiting.due other (by rw [pending]; exact List.mem_cons_of_mem timer member)
          fast := by
            intro chosen
            have none := waiting.fast chosen
            rw [pending] at none
            cases none }

end steps

/-! ### Runs -/

/-- A callback of the worker is a run of messages, one for each frame it hands over. -/
theorem callback_is_messages {codec : Codec} {clock : Nat → Timeval} {buffer rest : Bytes}
    {t next : Timed}
    (called : whileLoop (fun t payload => t.manager_message codec clock payload) buffer t =
      .ok (rest, next)) :
    ∃ payloads, buffer = LengthPrefix.frames lengthWidth payloads ++ rest ∧
      (payloads.map Event.message).foldlM (step codec clock) t = .ok next := by
  obtain ⟨payloads, handing⟩ := whileLoop_hands_over called
  refine ⟨payloads, handing.cut, ?_⟩
  rw [List.foldlM_map]
  exact handing.folded

section runs

variable {codec : Codec} {clock : Nat → Timeval}

/-- In a run over messages in trace order the queries are sent in that order
throughout, exactly when no message overtakes another: none is handled with its
deadline passed at one of its readings while an earlier one is on its timer.  What a
callback does is a run of the messages that it takes. -/
theorem sent_in_trace_order_iff (clockNormal : ∀ reading, (clock reading).Normalised)
    {start final : Timed} {events : List Event} (initial : start.Initial)
    (run : Runs.Run (step codec clock) (admits codec) start events final) :
    (Runs.AllStates (step codec clock) InOrder start events ↔
      Runs.AllSteps (step codec clock) (OvertakesNone codec clock) start events) ∧
    ∀ t next buffer rest, whileLoop (fun t payload => manager_message codec clock payload t)
        buffer t = .ok (rest, next) →
      ∃ payloads, buffer = LengthPrefix.frames lengthWidth payloads ++ rest ∧
        (payloads.map Event.message).foldlM (step codec clock) t = .ok next := by
  refine ⟨?_, fun _ _ _ _ called => callback_is_messages called⟩
  apply Runs.Run.allStates_iff_allSteps _ _ _ run initial.waiting
  · intro t waiting
    exact waiting.inOrder
  · intro t event next waiting admitted stepped
    cases event with
    | message payload =>
        constructor
        · exact overtakesNone_of_inOrder clockNormal waiting admitted stepped
        · intro overtakesNone
          exact (waiting.message clockNormal admitted stepped overtakesNone).inOrder
    | timeout =>
        obtain rfl := Except.ok.inj stepped
        exact iff_of_true waiting.timeout.inOrder trivial
  · intro t event next waiting admitted stepped overtakesNone
    cases event with
    | message payload => exact waiting.message clockNormal admitted stepped overtakesNone
    | timeout =>
        obtain rfl := Except.ok.inj stepped
        exact waiting.timeout

def started : Timed := { worker := Schedule.started_worker }

private theorem initial_started : started.Initial where
  normal := ⟨by decide, by decide⟩
  set := by decide
  no_timer := rfl
  none_sent := rfl
  none_handled := rfl
  no_latest := rfl

def still_clock : Nat → Timeval := fun _ => { tv_sec := 51, tv_usec := 0 }

def late_clock : Nat → Timeval := fun reading =>
  { tv_sec := if reading < 2 then 51 else 54, tv_usec := 0 }

def query_of (second : Int) : Event := .message (wire_text (Schedule.timed_query second))

/-- Two messages a second apart, and their timers. -/
theorem sent_in_trace_order_timers :
    ∃ final, Runs.Run (step Schedule.timed_library still_clock)
        (admits Schedule.timed_library) started
        [query_of 101, query_of 102, .timeout, .timeout] final ∧
      final.sent = [0, 1] ∧
      Runs.AllStates (step Schedule.timed_library still_clock) InOrder started
        [query_of 101, query_of 102, .timeout, .timeout] := by
  have run : ∃ final, Runs.Run (step Schedule.timed_library still_clock)
      (admits Schedule.timed_library) started
      [query_of 101, query_of 102, .timeout, .timeout] final ∧
        final.sent = [0, 1] := by
    refine ⟨_, .next ⟨rfl, by decide, ?_⟩ rfl (.next ⟨rfl, by decide, ?_⟩ rfl
      (.next ?_ rfl (.next ?_ rfl (.done _)))), rfl⟩
    · intro earlier impossible
      cases impossible
    · intro earlier same
      obtain rfl := Option.some.inj same
      decide
    · exact List.cons_ne_nil _ _
    · exact List.cons_ne_nil _ _
  obtain ⟨final, reached, sent⟩ := run
  have clockNormal : ∀ reading, (still_clock reading).Normalised :=
    fun reading => (by decide : (0 : Int) ≤ 0 ∧ (0 : Int) < 1000000)
  have inOrder := (sent_in_trace_order_iff clockNormal initial_started reached).1
  refine ⟨final, reached, sent, inOrder.mpr ?_⟩
  refine (Runs.allSteps_cons rfl).mpr ⟨?_, (Runs.allSteps_cons rfl).mpr ⟨?_,
    (Runs.allSteps_cons rfl).mpr ⟨trivial, (Runs.allSteps_cons rfl).mpr ⟨trivial,
      Runs.allSteps_nil _ _⟩⟩⟩⟩
  · intro overtakes
    exact overtakes.2 rfl
  · intro overtakes
    exact absurd overtakes.1 (by decide)

/-- Two messages a second apart, handled in one callback.  The first is due in
1.15 s and gets a timer; until the second is looked at, the clock has passed both
deadlines, and the second is sent before the timer of the first can run. -/
theorem later_query_overtakes :
    (∀ reading later, reading ≤ later →
      (late_clock reading).micros ≤ (late_clock later).micros) ∧
    ([frame (wire_text (Schedule.timed_query 101)) ++
        frame (wire_text (Schedule.timed_query 102))].foldlM
      (Schedule.manager_read_cb Schedule.timed_library late_clock)
        ([], (Schedule.started_worker, []))).map (fun reader => reader.2.2) =
      .ok [.timer_add { tv_sec := 1, tv_usec := 150000 } (Schedule.timed_query 101) 1,
        .send_query (Schedule.timed_query 102) 2] ∧
    ∃ final, Runs.Run (step Schedule.timed_library late_clock)
        (admits Schedule.timed_library) started
        [query_of 101, query_of 102, .timeout] final ∧
      final.sent = [1, 0] ∧
      ¬ Runs.AllStates (step Schedule.timed_library late_clock) InOrder started
        [query_of 101, query_of 102, .timeout] := by
  refine ⟨?_, ?_, ?_⟩
  · intro reading later order
    unfold late_clock micros
    simp only
    split <;> split <;> omega
  · have carried : ∀ payload ∈ [wire_text (Schedule.timed_query 101),
        wire_text (Schedule.timed_query 102)], LengthPrefix.Carried lengthWidth payload := by
      intro payload member
      rcases List.mem_cons.mp member with rfl | member
      · exact { nonempty := by decide, fits := by decide }
      · rw [List.mem_singleton.mp member]
        exact { nonempty := by decide, fits := by decide }
    have bounded : Bounded [wire_text (Schedule.timed_query 101),
        wire_text (Schedule.timed_query 102)]
        [frame (wire_text (Schedule.timed_query 101)) ++
          frame (wire_text (Schedule.timed_query 102))] :=
      bounded_of_length (by decide)
    have inStep := bounded.whileLoop_inStep carried (by decide)
      (Schedule.manager_handle Schedule.timed_library late_clock) (Schedule.started_worker, [])
    unfold Schedule.manager_read_cb
    rw [inStep_whole (by decide) inStep]
    rfl
  · have run : ∃ final, Runs.Run (step Schedule.timed_library late_clock)
        (admits Schedule.timed_library) started
        [query_of 101, query_of 102, .timeout] final ∧
        final.sent = [1, 0] := by
      refine ⟨_, .next ⟨rfl, by decide, ?_⟩ rfl
        (.next ⟨rfl, by decide, ?_⟩ rfl (.next ?_ rfl (.done _))), rfl⟩
      · intro earlier impossible
        cases impossible
      · intro earlier same
        obtain rfl := Option.some.inj same
        decide
      · exact List.cons_ne_nil _ _
    obtain ⟨final, reached, sent⟩ := run
    refine ⟨final, reached, sent, ?_⟩
    intro all
    have inOrder := all _ [] final (List.append_nil _).symm reached.unrestricted
    unfold InOrder at inOrder
    rw [sent] at inOrder
    exact absurd inOrder (by decide)

end runs

end Timed

end LDPlayer
