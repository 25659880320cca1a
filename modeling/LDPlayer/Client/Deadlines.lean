/-
The deadlines of the queries: what the three subtractions of manager_read_cb add
up to.

The time left to a query is computed from two-field time values with borrows and
tested by the sign of its seconds.  In microseconds it is the distance from the
clock reading to one point of time, which depends on the query alone.
-/
import LDPlayer.Client.Schedule

set_option autoImplicit false

namespace LDPlayer

namespace Timeval

def micros (tv : Timeval) : Int := tv.tv_sec * 1000000 + tv.tv_usec

def Normalised (tv : Timeval) : Prop := 0 ≤ tv.tv_usec ∧ tv.tv_usec < 1000000

instance (tv : Timeval) : Decidable tv.Normalised := inferInstanceAs (Decidable (_ ∧ _))

private theorem micros_evutil_timersub (tvp uvp : Timeval) :
    (tvp.evutil_timersub uvp).micros = tvp.micros - uvp.micros := by
  unfold evutil_timersub micros
  by_cases borrow : tvp.tv_usec - uvp.tv_usec < 0
  · simp only [if_pos borrow]
    omega
  · simp only [if_neg borrow]
    omega

theorem Normalised.evutil_timersub {tvp uvp : Timeval} (first : tvp.Normalised)
    (second : uvp.Normalised) : (tvp.evutil_timersub uvp).Normalised := by
  unfold Normalised at first second ⊢
  unfold Timeval.evutil_timersub
  by_cases borrow : tvp.tv_usec - uvp.tv_usec < 0
  · simp only [if_pos borrow]
    omega
  · simp only [if_neg borrow]
    omega

/-- The sign of the seconds alone is the sign of the value. -/
theorem Normalised.tv_sec_neg_iff {tv : Timeval} (normalised : tv.Normalised) :
    tv.tv_sec < 0 ↔ tv.micros < 0 := by
  unfold Normalised at normalised
  unfold micros
  omega

end Timeval

namespace Schedule

open Timeval

/-- The point of time at which a query is due, in microseconds. -/
def deadline (s : Schedule) (q_ts : Timeval) : Int :=
  s.start_real_ts.micros + (q_ts.micros - s.start_trace_ts.micros)

def time_left (s : Schedule) (q_ts now_ts : Timeval) : Timeval :=
  (q_ts.evutil_timersub s.start_trace_ts).evutil_timersub
    (now_ts.evutil_timersub s.start_real_ts)

theorem micros_time_left (s : Schedule) (q_ts now_ts : Timeval) :
    now_ts.micros + (s.time_left q_ts now_ts).micros = s.deadline q_ts := by
  unfold time_left deadline
  rw [micros_evutil_timersub, micros_evutil_timersub, micros_evutil_timersub]
  omega

def Normal (s : Schedule) : Prop := s.start_trace_ts.Normalised ∧ s.start_real_ts.Normalised

theorem Normal.time_left {s : Schedule} (normal : s.Normal) {q_ts now_ts : Timeval}
    (query : q_ts.Normalised) (now : now_ts.Normalised) : (s.time_left q_ts now_ts).Normalised :=
  (query.evutil_timersub normal.1).evutil_timersub (now.evutil_timersub normal.2)

theorem Normal.passed_iff {s : Schedule} (normal : s.Normal) {q_ts now_ts : Timeval}
    (query : q_ts.Normalised) (now : now_ts.Normalised) :
    (s.time_left q_ts now_ts).tv_sec < 0 ↔ s.deadline q_ts < now_ts.micros := by
  rw [(normal.time_left query now).tv_sec_neg_iff, ← s.micros_time_left q_ts now_ts]
  omega

/-- The deadline of a query has passed at one of its two clock readings. -/
def Passed (clock : Nat → Timeval) (s : Schedule) (q_ts : Timeval) : Prop :=
  s.deadline q_ts < (clock s.clock_reads).micros ∨
    s.deadline q_ts < (clock (s.clock_reads + 1)).micros

instance (clock : Nat → Timeval) (s : Schedule) (q_ts : Timeval) :
    Decidable (s.Passed clock q_ts) :=
  inferInstanceAs (Decidable (_ ∨ _))

/-- What a message that is taken leaves as it was. -/
structure Keeps (s next : Schedule) : Prop where
  non_wait : next.non_wait = s.non_wait
  start_trace_ts : next.start_trace_ts = s.start_trace_ts
  start_real_ts : next.start_real_ts = s.start_real_ts

theorem Keeps.deadline {s next : Schedule} (keeps : s.Keeps next) (q_ts : Timeval) :
    next.deadline q_ts = s.deadline q_ts := by
  unfold Schedule.deadline
  rw [keeps.start_trace_ts, keeps.start_real_ts]

theorem Keeps.trans {s middle next : Schedule} (first : s.Keeps middle)
    (second : middle.Keeps next) : s.Keeps next where
  non_wait := second.non_wait.trans first.non_wait
  start_trace_ts := second.start_trace_ts.trans first.start_trace_ts
  start_real_ts := second.start_real_ts.trans first.start_real_ts

section message

variable {clock : Nat → Timeval} {s : Schedule}

theorem normal_message_unset (unset : s.start_trace_ts = zero) (msg : DNSMsg)
    (q_ts : Timeval) :
    s.normal_message clock msg q_ts = .error (.exit "trace start time is NOT set!") := by
  unfold normal_message
  rw [if_pos]
  rw [unset]
  decide

theorem normal_message_cases (clockNormal : ∀ reading, (clock reading).Normalised)
    (normal : s.Normal) (set : s.start_trace_ts ≠ zero) (msg : DNSMsg) {q_ts : Timeval}
    (query : q_ts.Normalised) :
    (∃ next count, (s.non_wait = true ∨ s.Passed clock q_ts) ∧ s.Keeps next ∧
      s.normal_message clock msg q_ts = .ok (next, [.send_query msg count])) ∨
    (∃ next count, s.non_wait = false ∧ ¬ s.Passed clock q_ts ∧ s.Keeps next ∧
      next.clock_reads = s.clock_reads + 2 ∧
      s.normal_message clock msg q_ts =
        .ok (next, [.timer_add (s.time_left q_ts (clock (s.clock_reads + 1))) msg count])) := by
  have isSet : s.start_trace_ts.evutil_timerisset = true := (evutil_timerisset_iff _).mpr set
  have first := normal.passed_iff query (clockNormal s.clock_reads)
  have second := normal.passed_iff query (clockNormal (s.clock_reads + 1))
  unfold time_left at first second
  unfold normal_message recheck_now_ts
  simp only [isSet, not_true_eq_false, if_false]
  by_cases fast : s.non_wait = true ∨ ((q_ts.evutil_timersub s.start_trace_ts).evutil_timersub
      ((clock s.clock_reads).evutil_timersub s.start_real_ts)).tv_sec < 0
  · left
    refine ⟨_, _, ?_, ?_, if_pos fast⟩
    · rcases fast with chosen | late
      · exact Or.inl chosen
      · exact Or.inr (Or.inl (first.mp late))
    · exact ⟨rfl, rfl, rfl⟩
  · obtain ⟨waits, early⟩ := not_or.mp fast
    by_cases late : ((q_ts.evutil_timersub s.start_trace_ts).evutil_timersub
        ((clock (s.clock_reads + 1)).evutil_timersub s.start_real_ts)).tv_sec < 0
    · left
      refine ⟨_, _, Or.inr (Or.inr (second.mp late)), ?_, (if_neg fast).trans (if_pos late)⟩
      exact ⟨rfl, rfl, rfl⟩
    · right
      have pending : ¬ s.Passed clock q_ts := by
        intro passed
        rcases passed with passed | passed
        · exact early (first.mpr passed)
        · exact late (second.mpr passed)
      refine ⟨_, _, Bool.eq_false_iff.mpr waits, pending, ?_, ?_,
        (if_neg fast).trans (if_neg late)⟩
      · exact ⟨rfl, rfl, rfl⟩
      · rfl

theorem sync_message_cases {next : Schedule} {effects : List Effect} {q_ts : Timeval}
    (taken : s.sync_message clock q_ts = .ok (next, effects)) :
    s.start_trace_ts = zero ∧ effects = [] ∧ next.start_trace_ts = q_ts ∧
      next.start_real_ts = clock s.clock_reads := by
  unfold sync_message recheck_now_ts at taken
  by_cases isSet : s.start_trace_ts.evutil_timerisset = true
  · rw [if_pos isSet] at taken
    cases taken
  · rw [if_neg isSet] at taken
    obtain ⟨rfl, rfl⟩ := Prod.mk.inj (Except.ok.inj taken)
    refine ⟨?_, rfl, rfl, rfl⟩
    by_contra set
    exact isSet ((evutil_timerisset_iff _).mpr set)

end message

/-! ### Runs -/

section runs

variable {codec : Codec} {clock : Nat → Timeval}

private theorem manager_message_keeps (clockNormal : ∀ reading, (clock reading).Normalised)
    {s next : Schedule} {payload : Bytes} {effects : List Effect} (normal : s.Normal)
    (query : (codec.ParseFromArray payload).q_ts.Normalised)
    (taken : s.manager_message codec clock payload = .ok (next, effects)) :
    next.Normal ∧ (s.start_trace_ts ≠ zero → s.Keeps next) := by
  unfold manager_message at taken
  simp only at taken
  split at taken
  · obtain ⟨unset, _none, trace, real⟩ := sync_message_cases taken
    refine ⟨⟨by rw [trace]; exact query, by rw [real]; exact clockNormal _⟩, ?_⟩
    intro set
    exact absurd unset set
  · by_cases set : s.start_trace_ts = zero
    · rw [normal_message_unset set] at taken
      cases taken
    · have keeps : s.Keeps next := by
        rcases normal_message_cases clockNormal normal set _ query with
          ⟨_, _, _, keeps, done⟩ | ⟨_, _, _, _, keeps, _, done⟩
        · obtain ⟨rfl, _⟩ := Prod.mk.inj (Except.ok.inj (taken.symm.trans done))
          exact keeps
        · obtain ⟨rfl, _⟩ := Prod.mk.inj (Except.ok.inj (taken.symm.trans done))
          exact keeps
      refine ⟨⟨?_, ?_⟩, fun _ => keeps⟩
      · rw [keeps.start_trace_ts]
        exact normal.1
      · rw [keeps.start_real_ts]
        exact normal.2

theorem manager_handles_keep (clockNormal : ∀ reading, (clock reading).Normalised)
    {payloads : List Bytes} {s final : Schedule} {sent effects : List Effect} (normal : s.Normal)
    (queries : ∀ payload ∈ payloads, (codec.ParseFromArray payload).q_ts.Normalised)
    (ran : payloads.foldlM (manager_handle codec clock) (s, sent) = .ok (final, effects)) :
    final.Normal ∧ (s.start_trace_ts ≠ zero → s.Keeps final) := by
  induction payloads generalizing s sent with
  | nil =>
      obtain ⟨rfl, _⟩ := Prod.mk.inj (Except.ok.inj ran)
      exact ⟨normal, fun _ => ⟨rfl, rfl, rfl⟩⟩
  | cons payload later ih =>
      rw [List.foldlM_cons] at ran
      unfold manager_handle at ran
      cases taken : s.manager_message codec clock payload with
      | error fault =>
          simp only [taken] at ran
          cases ran
      | ok result =>
          obtain ⟨middle, more⟩ := result
          simp only [taken] at ran
          obtain ⟨normalMiddle, keeps⟩ := manager_message_keeps clockNormal normal
            (queries payload List.mem_cons_self) taken
          obtain ⟨normalFinal, keepsLater⟩ := ih normalMiddle
            (fun other member => queries other (List.mem_cons_of_mem payload member)) ran
          refine ⟨normalFinal, ?_⟩
          intro set
          have first := keeps set
          exact first.trans (keepsLater (by rw [first.start_trace_ts]; exact set))

/-- In the run over these messages, the last one arms a timer for this time. -/
def Arms (codec : Codec) (clock : Nat → Timeval) (start : Schedule) (before : List Bytes)
    (payload : Bytes) (tv : Timeval) (expires : Int) : Prop :=
  ∃ s sent next count,
    before.foldlM (manager_handle codec clock) (start, []) = .ok (s, sent) ∧
    s.manager_message codec clock payload =
      .ok (next, [.timer_add tv (codec.ParseFromArray payload) count]) ∧
    expires = (clock (next.clock_reads - 1)).micros + tv.micros

/-- The timer expires when the query is due, as the state that arms it has it. -/
theorem Arms.expires {start : Schedule} {before : List Bytes} {payload : Bytes} {tv : Timeval}
    {expires : Int} (clockNormal : ∀ reading, (clock reading).Normalised)
    (normal : start.Normal)
    (queries : ∀ other ∈ before ++ [payload], (codec.ParseFromArray other).q_ts.Normalised)
    (arms : Arms codec clock start before payload tv expires) :
    ∃ s sent, before.foldlM (manager_handle codec clock) (start, []) = .ok (s, sent) ∧
      s.start_trace_ts ≠ zero ∧ tv.Normalised ∧ 0 ≤ tv.tv_sec ∧
      expires = s.deadline (codec.ParseFromArray payload).q_ts := by
  obtain ⟨s, sent, next, count, ran, taken, expiry⟩ := arms
  have query := queries payload (List.mem_append_right _ List.mem_cons_self)
  obtain ⟨reached, _keeps⟩ := manager_handles_keep clockNormal normal
    (fun other member => queries other (List.mem_append_left _ member)) ran
  unfold manager_message at taken
  simp only at taken
  split at taken
  · obtain ⟨_unset, none, _trace, _real⟩ := sync_message_cases taken
    cases none
  · have set : s.start_trace_ts ≠ zero := by
      intro unset
      rw [normal_message_unset unset] at taken
      cases taken
    rcases normal_message_cases clockNormal reached set (codec.ParseFromArray payload) query with
      ⟨_, _, _, _, done⟩ | ⟨_, _, _, waits, _, reads, done⟩
    · have effects := (Prod.mk.inj (Except.ok.inj (taken.symm.trans done))).2
      cases effects
    · obtain ⟨rfl, effects⟩ := Prod.mk.inj (Except.ok.inj (taken.symm.trans done))
      obtain ⟨rfl, _msg, _count⟩ := Effect.timer_add.inj (List.cons.inj effects).1
      refine ⟨s, sent, ran, set, reached.time_left query (clockNormal _), ?_, ?_⟩
      · have early := mt (reached.passed_iff query (clockNormal (s.clock_reads + 1))).mp
          (fun passed => waits (Or.inr passed))
        exact Int.not_lt.mp early
      · rw [expiry, reads]
        exact s.micros_time_left _ (clock (s.clock_reads + 1))

/-- What a query is owed: it is sent at once exactly where the replay is fast or its
deadline has passed at one of the two readings, and else gets a timer; the delay of a
timer is normalised, not negative, and ends at the deadline. -/
structure Spaced (clock : Nat → Timeval) (s : Schedule) (msg : DNSMsg) : Prop where
  at_once : (∃ next count,
      s.normal_message clock msg msg.q_ts = .ok (next, [.send_query msg count])) ↔
    s.non_wait = true ∨ s.Passed clock msg.q_ts
  later : ¬ (s.non_wait = true ∨ s.Passed clock msg.q_ts) →
    ∃ next tv count, s.normal_message clock msg msg.q_ts = .ok (next, [.timer_add tv msg count])
  due : ∀ next tv other count,
    s.normal_message clock msg msg.q_ts = .ok (next, [.timer_add tv other count]) →
      tv.Normalised ∧ 0 ≤ tv.tv_sec ∧
        (clock (next.clock_reads - 1)).micros + tv.micros =
          s.start_real_ts.micros + (msg.q_ts.micros - s.start_trace_ts.micros)

private theorem spaced_of_set (clockNormal : ∀ reading, (clock reading).Normalised) {s : Schedule}
    (normal : s.Normal) (set : s.start_trace_ts ≠ zero) {msg : DNSMsg}
    (query : msg.q_ts.Normalised) : s.Spaced clock msg := by
  rcases normal_message_cases clockNormal normal set msg query with
    ⟨next, count, now, _keeps, taken⟩ | ⟨next, count, fast, waits, _keeps, reads, taken⟩
  · refine ⟨iff_of_true ⟨next, count, taken⟩ now, fun waits => absurd now waits, ?_⟩
    intro next' tv other count' armed
    have effects := (Prod.mk.inj (Except.ok.inj (taken.symm.trans armed))).2
    cases effects
  · have still : ¬ (s.non_wait = true ∨ s.Passed clock msg.q_ts) := by
      rw [fast]
      exact not_or.mpr ⟨Bool.false_ne_true, waits⟩
    refine ⟨iff_of_false ?_ still, fun _ => ⟨next, _, count, taken⟩, ?_⟩
    · intro sends
      obtain ⟨next', count', sent⟩ := sends
      have effects := (Prod.mk.inj (Except.ok.inj (taken.symm.trans sent))).2
      cases effects
    · intro next' tv other count' armed
      obtain ⟨rfl, effects⟩ := Prod.mk.inj (Except.ok.inj (taken.symm.trans armed))
      obtain ⟨rfl, _msg, _count⟩ := Effect.timer_add.inj (List.cons.inj effects).1
      refine ⟨normal.time_left query (clockNormal _), ?_, ?_⟩
      · have early := mt (normal.passed_iff query (clockNormal (s.clock_reads + 1))).mp
          (fun passed => waits (Or.inr passed))
        exact Int.not_lt.mp early
      · rw [reads]
        exact s.micros_time_left _ (clock (s.clock_reads + 1))

theorem not_spaced_of_unset {s : Schedule} (unset : s.start_trace_ts = zero) (msg : DNSMsg) :
    ¬ s.Spaced clock msg := by
  intro spaced
  have exits : s.normal_message clock msg msg.q_ts =
      .error (.exit "trace start time is NOT set!") :=
    normal_message_unset unset msg msg.q_ts
  by_cases now : s.non_wait = true ∨ s.Passed clock msg.q_ts
  · obtain ⟨next, count, sent⟩ := spaced.at_once.mpr now
    rw [exits] at sent
    cases sent
  · obtain ⟨next, tv, count, armed⟩ := spaced.later now
    rw [exits] at armed
    cases armed

/-- The deadlines have the spacing of the trace.

A query is sent at once or gets its timer as its deadline says, exactly if the start
of the trace is not 0.000000, which is how the worker marks that it is not set.  In a
run two timers are as far apart as the times of their messages, whenever the clock was
read for them. -/
theorem deadlines_have_trace_spacing_iff (codec : Codec) (clock : Nat → Timeval)
    (clockNormal : ∀ reading, (clock reading).Normalised) (s : Schedule) (normal : s.Normal) :
    (∀ msg : DNSMsg, msg.q_ts.Normalised →
      (s.Spaced clock msg ↔ s.start_trace_ts ≠ zero) ∧
      (s.start_trace_ts = zero →
        s.normal_message clock msg msg.q_ts =
          .error (.exit "trace start time is NOT set!"))) ∧
    (∀ before payload between payload' tv tv' expires expires',
      (∀ other ∈ before ++ payload :: between ++ [payload'],
        (codec.ParseFromArray other).q_ts.Normalised) →
      Arms codec clock s before payload tv expires →
      Arms codec clock s (before ++ payload :: between) payload' tv' expires' →
      expires' - expires =
        (codec.ParseFromArray payload').q_ts.micros -
          (codec.ParseFromArray payload).q_ts.micros) := by
  constructor
  · intro msg query
    refine ⟨?_, fun unset => normal_message_unset unset msg msg.q_ts⟩
    constructor
    · intro spaced unset
      exact not_spaced_of_unset unset msg spaced
    · intro set
      exact spaced_of_set clockNormal normal set query
  · intro before payload between payload' tv tv' expires expires' queries first second
    have queriesFirst : ∀ other ∈ before ++ [payload],
        (codec.ParseFromArray other).q_ts.Normalised := by
      intro other member
      apply queries other
      simp only [List.append_assoc, List.cons_append, List.mem_append, List.mem_cons] at member ⊢
      rcases member with early | same | impossible
      · exact Or.inl early
      · exact Or.inr (Or.inl same)
      · cases impossible
    obtain ⟨reached, sent, ran, set, _normalised, _positive, rfl⟩ :=
      first.expires clockNormal normal queriesFirst
    obtain ⟨later, sent', ran', _set', _normalised', _positive', rfl⟩ :=
      second.expires clockNormal normal queries
    rw [List.foldlM_append, ran] at ran'
    have normalReached := (manager_handles_keep clockNormal normal
      (fun other member => queriesFirst other (List.mem_append_left _ member)) ran).1
    have kept := (manager_handles_keep clockNormal normalReached
      (fun other member => queries other
        (List.mem_append_left _ (List.mem_append_right _ member))) ran').2 set
    rw [kept.deadline]
    unfold deadline
    omega

def timed_query (second : Int) : DNSMsg :=
  { seconds? := some second
    microseconds? := some 250000
    tcp? := some false
    ipv4? := some true
    src_ip? := some (Text.ascii "10.0.0.1")
    raw? := some [0, 7, 1, 0, 0, 1, 0, 0, 0, 0, 0, 0, 1, 97, 0, 0, 1, 0, 1] }

def timed_library : Codec := library_on [timed_query 101, timed_query 102, timed_query 103]

/-- A worker that started 0.9 s into second 50 with second 100 of the trace. -/
def started_worker : Schedule :=
  { non_wait := false
    start_trace_ts := { tv_sec := 100, tv_usec := 0 }
    start_real_ts := { tv_sec := 50, tv_usec := 900000 } }

/-- Two messages two seconds apart, read a microsecond apart. -/
theorem deadlines_two_seconds_apart :
    ∃ clock tv tv' expires expires', started_worker.Spaced clock (timed_query 101) ∧
      Arms timed_library clock started_worker [] (wire_text (timed_query 101)) tv expires ∧
      Arms timed_library clock started_worker ([] ++ wire_text (timed_query 101) :: [])
        (wire_text (timed_query 103)) tv' expires' ∧
      tv = { tv_sec := 1, tv_usec := 149999 } ∧ expires' - expires = 2000000 := by
  have first : Arms timed_library
      (fun reading => { tv_sec := 51, tv_usec := min reading 10 }) started_worker []
      (wire_text (timed_query 101)) { tv_sec := 1, tv_usec := 149999 } 52150000 :=
    ⟨started_worker, [], _, _, rfl, rfl, rfl⟩
  have second : Arms timed_library
      (fun reading => { tv_sec := 51, tv_usec := min reading 10 }) started_worker
      ([] ++ wire_text (timed_query 101) :: []) (wire_text (timed_query 103))
      { tv_sec := 3, tv_usec := 149997 } 54150000 :=
    ⟨_, _, _, _, rfl, rfl, rfl⟩
  have quarter : ∀ other ∈ [wire_text (timed_query 101), wire_text (timed_query 103)],
      (timed_library.ParseFromArray other).q_ts.Normalised := by
    decide +kernel
  obtain ⟨spaced, apart⟩ := deadlines_have_trace_spacing_iff timed_library
    (fun reading => { tv_sec := 51, tv_usec := min reading 10 })
    (fun reading => ⟨by simp only; omega, by simp only; omega⟩) started_worker
    ⟨by decide, by decide⟩
  exact ⟨_, _, _, _, _, (spaced (timed_query 101) (by decide)).1.mpr (by decide), first, second,
    rfl, apart [] _ [] _ _ _ _ _ quarter first second⟩

def zero_sync : DNSMsg :=
  { timed_query 0 with microseconds? := some 0, sync_time? := some true }

/-- The trace starts at 0.000000.  Its query of second 1.25 is overdue by more than two
seconds, and the worker exits over it. -/
theorem zero_start_exits :
    ∃ clock s, (∀ reading, (clock reading).Normalised) ∧ s.Normal ∧
      manager_handle (library_on [zero_sync, timed_query 1]) clock ({ non_wait := false }, [])
        (wire_text zero_sync) = .ok (s, []) ∧
      s.Passed clock (timed_query 1).q_ts ∧
      [wire_text zero_sync, wire_text (timed_query 1)].foldlM
        (manager_handle (library_on [zero_sync, timed_query 1]) clock)
        ({ non_wait := false }, []) = .error (.exit "trace start time is NOT set!") ∧
      ¬ s.Spaced clock (timed_query 1) := by
  refine ⟨fun reading => { tv_sec := 50 + 4 * reading, tv_usec := 0 },
    { non_wait := false, start_real_ts := { tv_sec := 50, tv_usec := 0 }, clock_reads := 1 },
    fun reading => (by decide : (0 : Int) ≤ 0 ∧ (0 : Int) < 1000000), ⟨by decide, by decide⟩,
    rfl, by decide, rfl, not_spaced_of_unset rfl _⟩

end runs

end Schedule

end LDPlayer
