/-
The worker's scheduling of queries: DNSClient::manager_read_cb.

The callback decides for each message whether its query is sent at once or by a
timer.  Both are effects in a list of outputs; the sending itself is a matter of
another module.  The clock is a function of the number of times it was read.
-/
import LDPlayer.Deframe

set_option autoImplicit false

namespace LDPlayer

open Timeval

/-- The members that the callback reads and writes.  `clock_reads` counts the
readings of the clock; `msg_buffer` stands beside this state. -/
structure Schedule where
  non_wait : Bool
  start_trace_ts : Timeval := Timeval.zero
  start_real_ts : Timeval := Timeval.zero
  num_query : Nat := 0
  num_pending_event : Nat := 0
  num_pending_event_max : Nat := 0
  num_timer : Nat := 0
  num_notimer : Nat := 0
  clock_reads : Nat := 0
  deriving DecidableEq, Repr

/-- Sending the query of a message at once, or when its timer expires. -/
inductive Effect where
  | send_query (msg : DNSMsg) (count : Nat)
  | timer_add (tv : Timeval) (msg : DNSMsg) (count : Nat)
  deriving DecidableEq, Repr

namespace Schedule

def ULLONG_MAX : Nat := 2 ^ 64 - 1

def recheck_now_ts (clock : Nat → Timeval) (s : Schedule) : Timeval × Schedule :=
  (clock s.clock_reads, { s with clock_reads := s.clock_reads + 1 })

def sync_message (clock : Nat → Timeval) (q_ts : Timeval) (s : Schedule) :
    Except Fault (Schedule × List Effect) :=
  if s.start_trace_ts.evutil_timerisset then
    .error (.exit "recv sync_time msg but trace start time is set!")
  else
    let (now_ts, read) := s.recheck_now_ts clock
    .ok ({ read with start_trace_ts := q_ts, start_real_ts := now_ts }, [])

/-- The branch of a query; the time left is computed a second time once the
timer event exists. -/
def normal_message (clock : Nat → Timeval) (msg : DNSMsg) (q_ts : Timeval) (s : Schedule) :
    Except Fault (Schedule × List Effect) :=
  if ¬ s.start_trace_ts.evutil_timerisset then
    .error (.exit "trace start time is NOT set!")
  else
    let num_query := (if s.num_query = ULLONG_MAX then 0 else s.num_query) + 1
    let counted := { s with num_query := num_query }
    let diff_time := q_ts.evutil_timersub counted.start_trace_ts
    let (now_ts, read) := counted.recheck_now_ts clock
    let tv := diff_time.evutil_timersub (now_ts.evutil_timersub read.start_real_ts)
    if read.non_wait ∨ tv.tv_sec < 0 then
      .ok ({ read with num_notimer := read.num_notimer + 1 }, [.send_query msg num_query])
    else
      let (again_ts, reread) := read.recheck_now_ts clock
      let tv' := diff_time.evutil_timersub (again_ts.evutil_timersub reread.start_real_ts)
      if tv'.tv_sec < 0 then
        .ok ({ reread with num_notimer := reread.num_notimer + 1 }, [.send_query msg num_query])
      else
        let pending := reread.num_pending_event + 1
        .ok ({ reread with
               num_timer := reread.num_timer + 1
               num_pending_event := pending
               num_pending_event_max := max reread.num_pending_event_max pending },
          [.timer_add tv' msg num_query])

def manager_message (codec : Codec) (clock : Nat → Timeval) (s : Schedule) (payload : Bytes) :
    Except Fault (Schedule × List Effect) :=
  let msg := codec.ParseFromArray payload
  if msg.sync_time then s.sync_message clock msg.q_ts else s.normal_message clock msg msg.q_ts

def manager_handle (codec : Codec) (clock : Nat → Timeval) (state : Schedule × List Effect)
    (payload : Bytes) : Except Fault (Schedule × List Effect) :=
  match state.1.manager_message codec clock payload with
  | .error fault => .error fault
  | .ok (s, effects) => .ok (s, state.2 ++ effects)

/-- One callback; the state is `msg_buffer` and the rest. -/
def manager_read_cb (codec : Codec) (clock : Nat → Timeval)
    (reader : Bytes × (Schedule × List Effect)) (data : Bytes) :
    Except Fault (Bytes × (Schedule × List Effect)) :=
  LengthPrefix.readChunk (whileLoop (manager_handle codec clock)) reader data

end Schedule

end LDPlayer
