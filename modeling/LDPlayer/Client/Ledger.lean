/-
The queries of a worker, its timer events and its counters.

A message is sent at once, or waits on a timer, or gets a timer event that is
freed again because its time is up by then.  Timer callbacks come in any order
between the callbacks that read.  Timer events are named in the order in which
they were created, so that no two share a name.
-/
import LDPlayer.Client.Deadlines
import LDPlayer.Foundation.Handles
import LDPlayer.Foundation.Runs

set_option autoImplicit false

namespace LDPlayer

open Handles LengthPrefix

/-- What libevent answers for the timer event of this name. -/
structure Evtimer where
  evtimer_new : Nat → Bool
  evtimer_add : Nat → Timeval → Bool

/-- The context of a timer event.  Nothing reads `position`, which counts the
normal messages before this one. -/
structure CbArg where
  e : Nat
  a : DNSMsg
  c : Nat
  position : Nat
  deriving DecidableEq, Repr

/-- A call of `send_query`, and the timer event it came from. -/
structure SendQuery where
  arg : DNSMsg
  count : Nat
  position : Nat
  timer : Option Nat
  deriving DecidableEq, Repr

/-- The worker and what libevent holds for it.  Nothing reads `sent`, `handled`
and `history`. -/
structure Ledger where
  worker : Schedule
  created : Nat := 0
  armed : List CbArg := []
  sent : List SendQuery := []
  handled : List DNSMsg := []
  history : List (Op Nat) := []

namespace Ledger

def send_query (msg : DNSMsg) (a : Ledger) : Ledger :=
  { a with
    worker := { a.worker with num_notimer := a.worker.num_notimer + 1 }
    sent := a.sent ++
      [{ arg := msg, count := a.worker.num_query, position := a.handled.length, timer := none }]
    handled := a.handled ++ [msg] }

def evtimer_new (a : Ledger) : Ledger :=
  { a with created := a.created + 1, history := a.history ++ [.create a.created] }

def event_free (e : Nat) (a : Ledger) : Ledger :=
  { a with history := a.history ++ [.free e] }

def evtimer_add (e : Nat) (msg : DNSMsg) (a : Ledger) : Ledger :=
  let pending := a.worker.num_pending_event + 1
  { a with
    worker :=
      { a.worker with
        num_timer := a.worker.num_timer + 1
        num_pending_event := pending
        num_pending_event_max := max a.worker.num_pending_event_max pending }
    armed := a.armed ++
      [{ e := e, a := msg, c := a.worker.num_query, position := a.handled.length }]
    handled := a.handled ++ [msg]
    history := a.history ++ [.use e] }

@[simp] theorem history_evtimer_new (a : Ledger) :
    a.evtimer_new.history = a.history ++ [Op.create a.created] := rfl

@[simp] theorem history_event_free (e : Nat) (a : Ledger) :
    (a.event_free e).history = a.history ++ [Op.free e] := rfl

@[simp] theorem history_evtimer_add (e : Nat) (msg : DNSMsg) (a : Ledger) :
    (a.evtimer_add e msg).history = a.history ++ [Op.use e] := rfl

section messages

variable (codec : Codec) (clock : Nat → Timeval) (evtimer : Evtimer)

def normal_message (msg : DNSMsg) (q_ts : Timeval) (a : Ledger) : Except Fault Ledger :=
  if ¬ a.worker.start_trace_ts.evutil_timerisset then
    .error (.exit "trace start time is NOT set!")
  else
    let num_query := (if a.worker.num_query = Schedule.ULLONG_MAX then 0 else a.worker.num_query) + 1
    let counted := { a.worker with num_query := num_query }
    let diff_time := q_ts.evutil_timersub counted.start_trace_ts
    let (now_ts, read) := counted.recheck_now_ts clock
    let tv := diff_time.evutil_timersub (now_ts.evutil_timersub read.start_real_ts)
    if read.non_wait ∨ tv.tv_sec < 0 then .ok (send_query msg { a with worker := read })
    else if ¬ evtimer.evtimer_new a.created then .error (.assertion "ev != NULL")
    else
      let e := a.created
      let (again_ts, reread) := read.recheck_now_ts clock
      let made := evtimer_new { a with worker := reread }
      let tv' := diff_time.evutil_timersub (again_ts.evutil_timersub reread.start_real_ts)
      if tv'.tv_sec < 0 then .ok (send_query msg (made.event_free e))
      else if ¬ evtimer.evtimer_add e tv' then .error (.exit "fail to add timer event")
      else .ok (made.evtimer_add e msg)

def manager_message (a : Ledger) (payload : Bytes) : Except Fault Ledger :=
  let msg := codec.ParseFromArray payload
  if msg.sync_time then
    match a.worker.sync_message clock msg.q_ts with
    | .error fault => .error fault
    | .ok (worker, _) => .ok { a with worker := worker }
  else a.normal_message clock evtimer msg msg.q_ts

def send_query_helper (arg : CbArg) (a : Ledger) : Ledger :=
  { a.event_free arg.e with
    worker := { a.worker with num_pending_event := a.worker.num_pending_event - 1 }
    armed := a.armed.erase arg
    sent := a.sent ++
      [{ arg := arg.a, count := arg.c, position := arg.position, timer := some arg.e }] }

@[simp] theorem history_send_query_helper (arg : CbArg) (a : Ledger) :
    (a.send_query_helper arg).history = a.history ++ [Op.free arg.e] := rfl

inductive Event where
  | manager_read_cb (data : Bytes)
  | send_query_helper (arg : CbArg)

/-- The state is `msg_buffer` and the rest. -/
def step (reader : Bytes × Ledger) : Event → Except Fault (Bytes × Ledger)
  | .manager_read_cb data =>
      readChunk (whileLoop (manager_message codec clock evtimer)) reader data
  | .send_query_helper arg => .ok (reader.1, reader.2.send_query_helper arg)

/-- Any armed timer may be the next that fires, and no other. -/
def admits (reader : Bytes × Ledger) : Event → Prop
  | .manager_read_cb _ => True
  | .send_query_helper arg => arg ∈ reader.2.armed

end messages

/-! ### The invariant -/

/-- The books are straight: every message handled was sent or has its armed
timer, once; the counters count; the live timer events are the armed ones. -/
structure Balanced (a : Ledger) : Prop where
  positions : (a.sent.map SendQuery.position ++ a.armed.map CbArg.position).Perm
    (List.range a.handled.length)
  sentMessage : ∀ call ∈ a.sent, a.handled[call.position]? = some call.arg
  armedMessage : ∀ arg ∈ a.armed, a.handled[arg.position]? = some arg.a
  pending : a.worker.num_pending_event = a.armed.length
  peak : a.worker.num_pending_event ≤ a.worker.num_pending_event_max
  notimer : a.worker.num_notimer = a.sent.countP (fun call => call.timer = none)
  timer : a.worker.num_timer = (a.sent.filterMap SendQuery.timer).length + a.armed.length
  released : ReleasedOnce a.history
  live : ∀ e, Live a.history e ↔ e ∈ a.armed.map CbArg.e
  named : ∀ e, .create e ∈ a.history → e < a.created
  fired : ∀ e ∈ a.sent.filterMap SendQuery.timer, .free e ∈ a.history
  once : (a.sent.filterMap SendQuery.timer ++ a.armed.map CbArg.e).Nodup

structure Initial (a : Ledger) : Prop where
  no_timer : a.armed = []
  none_sent : a.sent = []
  none_handled : a.handled = []
  no_history : a.history = []
  num_pending_event : a.worker.num_pending_event = 0
  num_pending_event_max : a.worker.num_pending_event_max = 0
  num_timer : a.worker.num_timer = 0
  num_notimer : a.worker.num_notimer = 0

theorem Initial.balanced {a : Ledger} (initial : a.Initial) : a.Balanced where
  positions := by rw [initial.none_sent, initial.no_timer, initial.none_handled]; rfl
  sentMessage := by rw [initial.none_sent]; intro call impossible; cases impossible
  armedMessage := by rw [initial.no_timer]; intro arg impossible; cases impossible
  pending := by rw [initial.num_pending_event, initial.no_timer]; rfl
  peak := by rw [initial.num_pending_event]; exact Nat.zero_le _
  notimer := by rw [initial.num_notimer, initial.none_sent]; rfl
  timer := by rw [initial.num_timer, initial.none_sent, initial.no_timer]; rfl
  released := by rw [initial.no_history]; exact releasedOnce_nil
  live := by
    rw [initial.no_history, initial.no_timer]
    intro e
    simp [Live]
  named := by
    rw [initial.no_history]
    intro e impossible
    cases impossible
  fired := by rw [initial.none_sent]; intro e impossible; cases impossible
  once := by rw [initial.none_sent, initial.no_timer]; exact List.nodup_nil

structure SameCounters (s t : Schedule) : Prop where
  num_pending_event : t.num_pending_event = s.num_pending_event
  num_pending_event_max : t.num_pending_event_max = s.num_pending_event_max
  num_timer : t.num_timer = s.num_timer
  num_notimer : t.num_notimer = s.num_notimer

theorem Balanced.counters {a : Ledger} (balanced : a.Balanced) {worker : Schedule}
    (same : SameCounters a.worker worker) : Balanced { a with worker := worker } :=
  { balanced with
    pending := same.num_pending_event.trans balanced.pending
    peak := by
      have peak := balanced.peak
      rw [← same.num_pending_event, ← same.num_pending_event_max] at peak
      exact peak
    notimer := same.num_notimer.trans balanced.notimer
    timer := same.num_timer.trans balanced.timer }

theorem Balanced.created_fresh {a : Ledger} (balanced : a.Balanced) :
    .create a.created ∉ a.history :=
  fun created => Nat.lt_irrefl _ (balanced.named a.created created)

theorem Balanced.created_unfreed {a : Ledger} (balanced : a.Balanced) :
    .free a.created ∉ a.history :=
  fun freed => balanced.created_fresh (balanced.released.created freed)

theorem Balanced.created_live {a : Ledger} (balanced : a.Balanced) :
    Live (a.history ++ [.create a.created]) a.created :=
  balanced.released.live_create balanced.created_fresh List.mem_cons_self (by simp)

theorem Balanced.named_created {a : Ledger} (balanced : a.Balanced) {op : Op Nat}
    (other : ∀ e, op ≠ .create e) {e : Nat}
    (member : .create e ∈ a.history ++ [.create a.created] ++ [op]) : e < a.created + 1 := by
  rcases List.mem_append.mp member with earlier | impossible
  · rcases List.mem_append.mp earlier with old | new
    · exact Nat.lt_succ_of_lt (balanced.named e old)
    · rw [Op.create.inj (List.mem_singleton.mp new)]
      exact Nat.lt_succ_self _
  · exact absurd (List.mem_singleton.mp impossible).symm (other e)

theorem getElem?_concat_of_some {handled : List DNSMsg} {position : Nat} {msg other : DNSMsg}
    (listed : handled[position]? = some msg) : (handled ++ [other])[position]? = some msg := by
  obtain ⟨within, _⟩ := List.getElem?_eq_some_iff.mp listed
  rw [List.getElem?_append_left within]
  exact listed

theorem Balanced.send_query {a : Ledger} (balanced : a.Balanced) (msg : DNSMsg) :
    (a.send_query msg).Balanced where
  positions := by
    change ((a.sent ++ [_]).map SendQuery.position ++ _).Perm
      (List.range (a.handled ++ [msg]).length)
    rw [List.map_append, List.length_append, List.length_singleton, List.range_succ,
      List.append_assoc]
    refine (List.perm_append_left_iff _).mpr List.perm_append_comm |>.trans ?_
    rw [← List.append_assoc]
    exact balanced.positions.append_right _
  sentMessage := by
    intro call member
    rcases List.mem_append.mp member with old | new
    · exact getElem?_concat_of_some (balanced.sentMessage call old)
    · rw [List.mem_singleton.mp new]
      exact List.getElem?_concat_length
  armedMessage := by
    intro arg member
    exact getElem?_concat_of_some (balanced.armedMessage arg member)
  pending := balanced.pending
  peak := balanced.peak
  notimer := by
    change a.worker.num_notimer + 1 = (a.sent ++ [_]).countP _
    rw [List.countP_append, balanced.notimer]
    rfl
  timer := by
    change a.worker.num_timer = ((a.sent ++ [_]).filterMap SendQuery.timer).length + _
    rw [List.filterMap_append, balanced.timer]
    simp [Ledger.send_query]
  released := balanced.released
  live := balanced.live
  named := balanced.named
  fired := by
    intro e member
    change e ∈ (a.sent ++ [_]).filterMap SendQuery.timer at member
    rw [List.filterMap_append] at member
    exact balanced.fired e (by simpa using member)
  once := by
    change ((a.sent ++ [_]).filterMap SendQuery.timer ++ _).Nodup
    rw [List.filterMap_append]
    simpa [Ledger.send_query] using balanced.once

/-- A timer event that is freed again leaves the others as they were. -/
theorem Balanced.dropped {a : Ledger} (balanced : a.Balanced) :
    (a.evtimer_new.event_free a.created).Balanced := by
  have fresh := balanced.created_fresh
  exact
    { balanced with
      released := by
        rw [history_event_free, history_evtimer_new]
        exact releasedOnce_concat.mpr
          ⟨releasedOnce_concat.mpr ⟨balanced.released, trivial⟩, balanced.created_live⟩
      live := by
        intro e
        rw [history_event_free, history_evtimer_new, List.append_assoc, live_append]
        refine Iff.trans ?_ (balanced.live e)
        unfold Live
        by_cases same : e = a.created
        · subst same
          simp [fresh]
        · simp [same]
      named := fun e member => balanced.named_created (by intro other same; cases same) member
      fired := by
        intro e member
        rw [history_event_free, history_evtimer_new]
        exact List.mem_append_left _ (List.mem_append_left _ (balanced.fired e member)) }

theorem Balanced.armed {a : Ledger} (balanced : a.Balanced) (msg : DNSMsg) :
    (a.evtimer_new.evtimer_add a.created msg).Balanced := by
  have unfreed := balanced.created_unfreed
  exact
    { positions := by
        change (_ ++ (a.armed ++ [_]).map CbArg.position).Perm
          (List.range (a.handled ++ [msg]).length)
        rw [List.map_append, List.length_append, List.length_singleton, List.range_succ,
          ← List.append_assoc]
        exact balanced.positions.append_right _
      sentMessage := fun call member => getElem?_concat_of_some (balanced.sentMessage call member)
      armedMessage := by
        intro arg member
        rcases List.mem_append.mp member with old | new
        · exact getElem?_concat_of_some (balanced.armedMessage arg old)
        · rw [List.mem_singleton.mp new]
          exact List.getElem?_concat_length
      pending := by
        change a.worker.num_pending_event + 1 = (a.armed ++ [_]).length
        rw [balanced.pending, List.length_append, List.length_singleton]
      peak := Nat.le_max_right _ _
      notimer := balanced.notimer
      timer := by
        change a.worker.num_timer + 1 = _ + (a.armed ++ [_]).length
        rw [balanced.timer, List.length_append, List.length_singleton, Nat.add_assoc]
        rfl
      released := by
        rw [history_evtimer_add, history_evtimer_new]
        exact releasedOnce_concat.mpr
          ⟨releasedOnce_concat.mpr ⟨balanced.released, trivial⟩, balanced.created_live⟩
      live := by
        intro e
        change _ ↔ e ∈ (a.armed ++ [_]).map CbArg.e
        rw [history_evtimer_add, history_evtimer_new, List.map_append, List.mem_append,
          ← balanced.live e, List.append_assoc, live_append]
        unfold Live
        by_cases same : e = a.created
        · subst same
          simp [unfreed]
        · simp [same]
      named := fun e member => balanced.named_created (by intro other same; cases same) member
      fired := by
        intro e member
        rw [history_evtimer_add, history_evtimer_new]
        exact List.mem_append_left _ (List.mem_append_left _ (balanced.fired e member))
      once := by
        change (_ ++ (a.armed ++ [_]).map CbArg.e).Nodup
        rw [List.map_append, ← List.append_assoc]
        apply List.Nodup.append balanced.once (List.nodup_singleton _)
        rw [List.disjoint_singleton]
        intro listed
        rcases List.mem_append.mp listed with sent | waits
        · exact unfreed (balanced.fired _ sent)
        · exact balanced.created_fresh ((balanced.live _).mpr waits).1 }

theorem Balanced.send_query_helper {a : Ledger} (balanced : a.Balanced) {arg : CbArg}
    (armed : arg ∈ a.armed) : (a.send_query_helper arg).Balanced := by
  have split := List.perm_cons_erase armed
  have live : Live a.history arg.e := (balanced.live arg.e).mpr (List.mem_map_of_mem armed)
  have events : (a.armed.map CbArg.e).Perm (arg.e :: (a.armed.erase arg).map CbArg.e) :=
    split.map CbArg.e
  have distinct := (events.nodup_iff.mp (List.Nodup.of_append_right balanced.once))
  have sentTimers : (a.send_query_helper arg).sent.filterMap SendQuery.timer =
      a.sent.filterMap SendQuery.timer ++ [arg.e] := by
    change (a.sent ++ [_]).filterMap SendQuery.timer = _
    rw [List.filterMap_append]
    rfl
  exact
    { positions := by
        change ((a.sent ++ [_]).map SendQuery.position ++
          (a.armed.erase arg).map CbArg.position).Perm (List.range a.handled.length)
        rw [List.map_append, List.append_assoc]
        refine ((List.perm_append_left_iff _).mpr ?_).trans balanced.positions
        exact (split.map CbArg.position).symm
      sentMessage := by
        intro call member
        rcases List.mem_append.mp member with old | new
        · exact balanced.sentMessage call old
        · rw [List.mem_singleton.mp new]
          exact balanced.armedMessage arg armed
      armedMessage := fun other member =>
        balanced.armedMessage other (List.mem_of_mem_erase member)
      pending := by
        change a.worker.num_pending_event - 1 = (a.armed.erase arg).length
        rw [balanced.pending, List.length_erase_of_mem armed]
      peak := (Nat.sub_le _ _).trans balanced.peak
      notimer := by
        change a.worker.num_notimer = (a.sent ++ [_]).countP _
        rw [List.countP_append, balanced.notimer]
        rfl
      timer := by
        rw [sentTimers]
        change a.worker.num_timer = _ + (a.armed.erase arg).length
        have positive := List.length_pos_of_mem armed
        rw [balanced.timer, List.length_append, List.length_singleton,
          List.length_erase_of_mem armed]
        omega
      released := by
        rw [history_send_query_helper]
        exact releasedOnce_concat.mpr ⟨balanced.released, live⟩
      live := by
        intro e
        change Live (a.history ++ [arg.e].map .free) e ↔ e ∈ (a.armed.erase arg).map CbArg.e
        rw [live_append_free, balanced.live e, events.mem_iff, List.mem_cons, List.mem_singleton]
        constructor
        · intro both
          exact both.1.resolve_left both.2
        · intro later
          refine ⟨Or.inr later, ?_⟩
          rintro rfl
          exact (List.nodup_cons.mp distinct).1 later
      named := by
        intro e member
        rw [history_send_query_helper] at member
        exact balanced.named e (by simpa using member)
      fired := by
        intro e member
        rw [sentTimers] at member
        rw [history_send_query_helper]
        rcases List.mem_append.mp member with old | new
        · exact List.mem_append_left _ (balanced.fired e old)
        · rw [List.mem_singleton.mp new]
          exact List.mem_append_right _ List.mem_cons_self
      once := by
        rw [sentTimers, List.append_assoc]
        refine (List.Perm.nodup_iff ((List.perm_append_left_iff _).mpr ?_)).mpr balanced.once
        exact events.symm }

/-! ### What a message does -/

section cases

variable {codec : Codec} {clock : Nat → Timeval} {evtimer : Evtimer} {a next : Ledger}

private theorem normal_message_cases {msg : DNSMsg} {q_ts : Timeval}
    (taken : a.normal_message clock evtimer msg q_ts = .ok next) :
    ∃ worker, SameCounters a.worker worker ∧
      (next = send_query msg { a with worker := worker } ∨
        next = send_query msg
          (event_free a.created (evtimer_new { a with worker := worker })) ∨
        next = evtimer_add a.created msg (evtimer_new { a with worker := worker })) := by
  unfold normal_message Schedule.recheck_now_ts at taken
  simp only at taken
  split at taken
  · cases taken
  · split at taken
    · refine ⟨_, ?_, Or.inl (Except.ok.inj taken).symm⟩
      exact ⟨rfl, rfl, rfl, rfl⟩
    · split at taken
      · cases taken
      · split at taken
        · refine ⟨_, ?_, Or.inr (Or.inl (Except.ok.inj taken).symm)⟩
          exact ⟨rfl, rfl, rfl, rfl⟩
        · split at taken
          · cases taken
          · refine ⟨_, ?_, Or.inr (Or.inr (Except.ok.inj taken).symm)⟩
            exact ⟨rfl, rfl, rfl, rfl⟩

/-- What a message changes of the books. -/
structure Books (msgs : List DNSMsg) (a next : Ledger) : Prop where
  balanced : next.Balanced
  handled : next.handled = a.handled ++ msgs
  rises : a.worker.num_pending_event ≤ next.worker.num_pending_event
  peak : next.worker.num_pending_event_max =
    max a.worker.num_pending_event_max next.worker.num_pending_event

theorem Balanced.normal_message (balanced : a.Balanced) {msg : DNSMsg} {q_ts : Timeval}
    (taken : a.normal_message clock evtimer msg q_ts = .ok next) : Books [msg] a next := by
  obtain ⟨worker, same, outcome⟩ := normal_message_cases taken
  have counted := balanced.counters same
  have kept : worker.num_pending_event_max =
      max a.worker.num_pending_event_max worker.num_pending_event := by
    rw [same.num_pending_event_max, same.num_pending_event, max_eq_left balanced.peak]
  rcases outcome with rfl | rfl | rfl
  · exact ⟨counted.send_query msg, rfl, Nat.le_of_eq same.num_pending_event.symm, kept⟩
  · exact ⟨counted.dropped.send_query msg, rfl, Nat.le_of_eq same.num_pending_event.symm, kept⟩
  · refine ⟨counted.armed msg, rfl, ?_, ?_⟩
    · change a.worker.num_pending_event ≤ worker.num_pending_event + 1
      rw [same.num_pending_event]
      exact Nat.le_succ _
    · change max worker.num_pending_event_max (worker.num_pending_event + 1) = max _ _
      rw [same.num_pending_event_max]
      rfl

def normals (codec : Codec) (payloads : List Bytes) : List DNSMsg :=
  (payloads.map codec.ParseFromArray).filter (fun msg => msg.sync_time = false)

theorem Balanced.manager_message (balanced : a.Balanced) {payload : Bytes}
    (taken : a.manager_message codec clock evtimer payload = .ok next) :
    Books (normals codec [payload]) a next := by
  unfold Ledger.manager_message at taken
  unfold normals
  simp only at taken
  by_cases sync : (codec.ParseFromArray payload).sync_time = true
  · rw [if_pos sync] at taken
    split at taken
    · cases taken
    · rename_i worker _effects synced
      have same : SameCounters a.worker worker := by
        unfold Schedule.sync_message Schedule.recheck_now_ts at synced
        split at synced
        · cases synced
        · obtain ⟨rfl, _⟩ := Prod.mk.inj (Except.ok.inj synced)
          exact ⟨rfl, rfl, rfl, rfl⟩
      obtain rfl := Except.ok.inj taken
      refine ⟨balanced.counters same, ?_, Nat.le_of_eq same.num_pending_event.symm, ?_⟩
      · simp [sync]
      · change worker.num_pending_event_max = max _ worker.num_pending_event
        rw [same.num_pending_event_max, same.num_pending_event, max_eq_left balanced.peak]
  · rw [if_neg sync] at taken
    have books := balanced.normal_message taken
    simpa [Bool.eq_false_iff.mpr sync] using books

theorem Balanced.manager_messages (balanced : a.Balanced) {payloads : List Bytes}
    (folded : payloads.foldlM (Ledger.manager_message codec clock evtimer) a = .ok next) :
    Books (normals codec payloads) a next := by
  induction payloads generalizing a with
  | nil =>
      obtain rfl := Except.ok.inj folded
      exact ⟨balanced, (List.append_nil _).symm, Nat.le_refl _, (max_eq_left balanced.peak).symm⟩
  | cons payload later ih =>
      rw [List.foldlM_cons] at folded
      cases taken : a.manager_message codec clock evtimer payload with
      | error fault =>
          rw [taken] at folded
          cases folded
      | ok middle =>
          rw [taken] at folded
          have first := balanced.manager_message taken
          have rest := ih first.balanced folded
          refine ⟨rest.balanced, ?_, first.rises.trans rest.rises, ?_⟩
          · rw [rest.handled, first.handled, List.append_assoc]
            congr 1
            exact (List.filter_append ..).symm
          · rw [rest.peak, first.peak, max_assoc, max_eq_right rest.rises]

end cases

/-! ### The effects of the scheduling -/

section refinement

variable {codec : Codec} {clock : Nat → Timeval} {evtimer : Evtimer} {a next : Ledger}

def called (position : Nat) : Effect → Option SendQuery
  | .send_query msg count =>
      some { arg := msg, count := count, position := position, timer := none }
  | .timer_add _ _ _ => none

def waits (e position : Nat) : Effect → Option CbArg
  | .send_query _ _ => none
  | .timer_add _ msg count => some { e := e, a := msg, c := count, position := position }

/-- Where libevent does its part, a message has the effects of the scheduling. -/
theorem manager_message_effects {payload : Bytes}
    (taken : a.manager_message codec clock evtimer payload = .ok next) :
    ∃ effects, a.worker.manager_message codec clock payload = .ok (next.worker, effects) ∧
      next.sent = a.sent ++ effects.filterMap (called a.handled.length) ∧
      next.armed = a.armed ++ effects.filterMap (waits a.created a.handled.length) := by
  unfold manager_message normal_message Schedule.recheck_now_ts at taken
  unfold Schedule.manager_message Schedule.normal_message Schedule.recheck_now_ts
  simp only at taken ⊢
  generalize (if a.worker.num_query = Schedule.ULLONG_MAX then 0 else a.worker.num_query) =
    num_query at taken ⊢
  split
  · rename_i sync
    rw [if_pos sync] at taken
    cases synced : a.worker.sync_message clock (codec.ParseFromArray payload).q_ts with
    | error fault =>
        rw [synced] at taken
        cases taken
    | ok result =>
        rw [synced] at taken
        obtain rfl := Except.ok.inj taken
        have none : result.2 = [] := by
          unfold Schedule.sync_message at synced
          split at synced
          · cases synced
          · rw [← Except.ok.inj synced]
        refine ⟨result.2, rfl, ?_, ?_⟩
        · rw [none]
          exact (List.append_nil _).symm
        · rw [none]
          exact (List.append_nil _).symm
  · rename_i query
    rw [if_neg query] at taken
    split
    · rename_i unset
      rw [if_pos unset] at taken
      cases taken
    · rename_i set
      rw [if_neg set] at taken
      split
      · rename_i now
        rw [if_pos now] at taken
        obtain rfl := Except.ok.inj taken
        exact ⟨_, rfl, rfl, (List.append_nil _).symm⟩
      · rename_i later
        rw [if_neg later] at taken
        split at taken
        · cases taken
        · split
          · rename_i late
            rw [if_pos late] at taken
            obtain rfl := Except.ok.inj taken
            exact ⟨_, rfl, rfl, (List.append_nil _).symm⟩
          · rename_i early
            rw [if_neg early] at taken
            split at taken
            · cases taken
            · obtain rfl := Except.ok.inj taken
              exact ⟨_, rfl, (List.append_nil _).symm, rfl⟩

end refinement

/-! ### Runs -/

def Event.data : Event → Bytes
  | .manager_read_cb data => data
  | .send_query_helper _ => []

/-- Every normal message was passed to `send_query` once, at once or by the one
timer it had, or has its armed timer; a timer that fired was freed. -/
structure SentOnce (a : Ledger) : Prop where
  accounted : ∀ position < a.handled.length,
    (a.sent.map SendQuery.position).count position +
      (a.armed.map CbArg.position).count position = 1
  sent : ∀ call ∈ a.sent, a.handled[call.position]? = some call.arg
  armed : ∀ arg ∈ a.armed, a.handled[arg.position]? = some arg.a
  once : (a.sent.filterMap SendQuery.timer ++ a.armed.map CbArg.e).Nodup
  fired : ∀ e ∈ a.sent.filterMap SendQuery.timer, .free e ∈ a.history
  released : ReleasedOnce a.history
  live : ∀ e, Live a.history e ↔ e ∈ a.armed.map CbArg.e

theorem Balanced.sentOnce {a : Ledger} (balanced : a.Balanced) : a.SentOnce where
  accounted := by
    intro position within
    have counts := balanced.positions.count_eq position
    rw [List.count_append] at counts
    rw [counts]
    exact List.count_eq_one_of_mem List.nodup_range (List.mem_range.mpr within)
  sent := balanced.sentMessage
  armed := balanced.armedMessage
  once := balanced.once
  fired := balanced.fired
  released := balanced.released
  live := balanced.live

theorem Balanced.total {a : Ledger} (balanced : a.Balanced) :
    a.worker.num_timer + a.worker.num_notimer = a.handled.length := by
  have sizes := balanced.positions.length_eq
  rw [List.length_append, List.length_map, List.length_map, List.length_range] at sizes
  have parted : a.sent.length = (a.sent.filterMap SendQuery.timer).length +
      a.sent.countP (fun call => call.timer = none) := by
    generalize a.sent = calls
    induction calls with
    | nil => rfl
    | cons call rest ih =>
        cases timer : call.timer <;> simp [timer, ih] <;> omega
  rw [balanced.timer, balanced.notimer]
  omega

section runs

variable {codec : Codec} {clock : Nat → Timeval} {evtimer : Evtimer}

theorem Balanced.step {reader next : Bytes × Ledger} {event : Event}
    (balanced : reader.2.Balanced) (admitted : admits reader event)
    (stepped : step codec clock evtimer reader event = .ok next) :
    (∃ payloads, reader.1 ++ event.data = frames lengthWidth payloads ++ next.1 ∧
      next.2.handled = reader.2.handled ++ normals codec payloads) ∧
    next.2.Balanced ∧
    next.2.worker.num_pending_event_max =
      max reader.2.worker.num_pending_event_max next.2.worker.num_pending_event := by
  cases event with
  | manager_read_cb data =>
      obtain ⟨payloads, handing⟩ := whileLoop_hands_over stepped
      have books := balanced.manager_messages handing.folded
      exact ⟨⟨payloads, handing.cut, books.handled⟩, books.balanced, books.peak⟩
  | send_query_helper arg =>
      obtain rfl := Except.ok.inj stepped
      refine ⟨⟨[], List.append_nil _, (List.append_nil _).symm⟩,
        balanced.send_query_helper admitted, ?_⟩
      exact (max_eq_left ((Nat.sub_le _ 1).trans balanced.peak)).symm

theorem Run.balanced {start final : Bytes × Ledger} {events : List Event}
    (run : Runs.Run (Ledger.step codec clock evtimer) admits start events final)
    (balanced : start.2.Balanced) : final.2.Balanced := by
  have keeps : ∀ (reader : Bytes × Ledger) event next, reader.2.Balanced → admits reader event →
      Ledger.step codec clock evtimer reader event = .ok next → next.2.Balanced := by
    intro reader event next balanced admitted stepped
    exact (balanced.step admitted stepped).2.1
  exact Runs.Run.invariant keeps run balanced

/-- What the run handled are the normal messages of the frames it received. -/
theorem Run.received {start final : Bytes × Ledger} {events : List Event}
    (run : Runs.Run (Ledger.step codec clock evtimer) admits start events final)
    (balanced : start.2.Balanced) :
    ∃ payloads,
      start.1 ++ (events.map Event.data).flatten = frames lengthWidth payloads ++ final.1 ∧
        final.2.handled = start.2.handled ++ normals codec payloads := by
  induction run with
  | done reader => exact ⟨[], List.append_nil _, (List.append_nil _).symm⟩
  | next admitted stepped _rest ih =>
      obtain ⟨⟨first, cut, handled⟩, kept, _peak⟩ := balanced.step admitted stepped
      obtain ⟨later, behind, more⟩ := ih kept
      refine ⟨first ++ later, ?_, ?_⟩
      · rw [List.map_cons, List.flatten_cons, ← List.append_assoc, cut, List.append_assoc, behind,
          frames_append, List.append_assoc]
      · rw [more, handled, List.append_assoc]
        unfold normals
        rw [List.map_append, List.filter_append]

/-- Timers that are armed may all fire, in any order. -/
theorem fire_all (buffer : Bytes) {a : Ledger} {order : List CbArg}
    (all : order.Perm a.armed) :
    ∃ last, Runs.Run (step codec clock evtimer) admits (buffer, a)
        (order.map Event.send_query_helper) (buffer, last) ∧
      last.armed = [] ∧ last.handled = a.handled := by
  induction order generalizing a with
  | nil => exact ⟨a, .done _, all.nil_eq.symm, rfl⟩
  | cons arg rest ih =>
      obtain ⟨armed, others⟩ := List.cons_perm_iff_perm_erase.mp all
      obtain ⟨last, run, none, handled⟩ := ih (a := a.send_query_helper arg) others
      exact ⟨last, .next armed rfl run, none, handled⟩

/-- Every query is sent once and the counters reconcile.

In whatever state a run of reads and timer callbacks ends: the normal messages
handled are those of the frames received; each was sent once or waits on the one
timer that will send it; `num_pending_event` counts the armed timers, so that it
is positive where one fires, `num_pending_event_max` is the greatest value it has
had, and the two other counters add up to the messages.  If the armed timers
fire, in whatever order, each message has been sent once. -/
theorem every_query_sent_once {start final : Bytes × Ledger} {events : List Event}
    (initial : start.2.Initial) (fresh : start.1 = [])
    (run : Runs.Run (step codec clock evtimer) admits start events final) :
    (∃ payloads, (events.map Event.data).flatten = frames lengthWidth payloads ++ final.1 ∧
      final.2.handled = normals codec payloads) ∧
    final.2.SentOnce ∧
    final.2.worker.num_pending_event = final.2.armed.length ∧
    (∀ arg, admits final (.send_query_helper arg) → 0 < final.2.worker.num_pending_event) ∧
    IsGreatest
      (Runs.Measured (step codec clock evtimer)
        (fun reader => reader.2.worker.num_pending_event) start events)
      final.2.worker.num_pending_event_max ∧
    final.2.worker.num_timer + final.2.worker.num_notimer = final.2.handled.length ∧
    (∀ order : List CbArg, order.Perm final.2.armed → ∃ last,
      Runs.Run (step codec clock evtimer) admits final (order.map Event.send_query_helper) last ∧
        last.2.armed = [] ∧
        ∀ position < final.2.handled.length,
          (last.2.sent.map SendQuery.position).count position = 1) := by
  have started := initial.balanced
  have balanced := Run.balanced run started
  refine ⟨?_, balanced.sentOnce, balanced.pending, ?_, ?_, balanced.total, ?_⟩
  · obtain ⟨payloads, cut, handled⟩ := Run.received run started
    rw [fresh, List.nil_append] at cut
    rw [initial.none_handled, List.nil_append] at handled
    exact ⟨payloads, cut, handled⟩
  · intro arg armed
    rw [balanced.pending]
    exact List.length_pos_of_mem armed
  · have raises : ∀ (reader : Bytes × Ledger) event next, reader.2.Balanced →
        admits reader event → step codec clock evtimer reader event = .ok next →
        next.2.Balanced ∧ next.2.worker.num_pending_event_max =
          max reader.2.worker.num_pending_event_max next.2.worker.num_pending_event := by
      intro reader event next kept admitted stepped
      exact (kept.step admitted stepped).2
    apply Runs.Run.isGreatest raises run started
    rw [initial.num_pending_event_max, initial.num_pending_event]
  · intro order all
    obtain ⟨last, fired, none, handled⟩ := fire_all final.1 all
    refine ⟨_, fired, none, ?_⟩
    intro position within
    have accounted := (Run.balanced fired balanced).sentOnce.accounted position
      (by rw [handled]; exact within)
    rw [none, List.map_nil, List.count_nil, Nat.add_zero] at accounted
    exact accounted

/-- A libevent that never fails. -/
def always : Evtimer where
  evtimer_new _ := true
  evtimer_add _ _ := true

def sample_timer : CbArg := { e := 0, a := Schedule.timed_query 101, c := 1, position := 0 }

/-- One message, due in 1.15 s, and its timer. -/
theorem every_query_sent_once_timer :
    ∃ final, Runs.Run
        (step Schedule.timed_library (fun _ => { tv_sec := 51, tv_usec := 0 }) always) admits
        ([], { worker := Schedule.started_worker })
        [.manager_read_cb (frame (wire_text (Schedule.timed_query 101))),
          .send_query_helper sample_timer]
        final ∧
      final.2.worker.num_pending_event = 0 ∧ final.2.worker.num_timer = 1 ∧
      final.2.worker.num_timer + final.2.worker.num_notimer = 1 ∧ final.2.SentOnce := by
  have carried : Carried lengthWidth (wire_text (Schedule.timed_query 101)) :=
    { nonempty := by decide, fits := by decide }
  have read : step Schedule.timed_library (fun _ => { tv_sec := 51, tv_usec := 0 }) always
      ([], { worker := Schedule.started_worker })
        (.manager_read_cb (frame (wire_text (Schedule.timed_query 101)))) =
      (manager_message Schedule.timed_library (fun _ => { tv_sec := 51, tv_usec := 0 }) always
        { worker := Schedule.started_worker } (wire_text (Schedule.timed_query 101))).map
          (fun next => ([], next)) := by
    change whileLoop _ (frame (wire_text (Schedule.timed_query 101)) ++ []) _ = _
    rw [whileLoop_frame _ carried [] (by decide)]
    cases manager_message Schedule.timed_library (fun _ => { tv_sec := 51, tv_usec := 0 }) always
        { worker := Schedule.started_worker } (wire_text (Schedule.timed_query 101)) with
    | error fault => rfl
    | ok next => exact whileLoop_short _ (by decide) next
  have run : ∃ final, Runs.Run
      (step Schedule.timed_library (fun _ => { tv_sec := 51, tv_usec := 0 }) always) admits
      ([], { worker := Schedule.started_worker })
      [.manager_read_cb (frame (wire_text (Schedule.timed_query 101))),
        .send_query_helper sample_timer]
      final ∧ final.2.worker.num_pending_event = 0 ∧ final.2.worker.num_timer = 1 ∧
        final.2.handled.length = 1 :=
    ⟨_, .next trivial (read.trans rfl) (.next List.mem_cons_self rfl (.done _)), rfl, rfl, rfl⟩
  obtain ⟨final, reached, pending, timer, handled⟩ := run
  have books := every_query_sent_once ⟨rfl, rfl, rfl, rfl, rfl, rfl, rfl, rfl⟩ rfl reached
  refine ⟨final, reached, pending, timer, ?_, books.2.1⟩
  rw [books.2.2.2.2.2.1, handled]

end runs

end Ledger

end LDPlayer
