/-
The synchronisation of the workers' clocks.

A worker takes the first message for the start of the trace and has no other
mark of it than the value.  A trace that starts at zero looks to it like one
whose start never came.
-/
import LDPlayer.Client.Schedule
import LDPlayer.Replay.Distributed

set_option autoImplicit false

namespace LDPlayer

open Timeval Sharing Replay

namespace Schedule

variable {codec : Codec} {clock : Nat → Timeval} {s : Schedule}

private theorem normal_message_started (clock : Nat → Timeval)
    (started : s.start_trace_ts ≠ Timeval.zero) (msg : DNSMsg)
    (q_ts : Timeval) :
    ∃ next effects, s.normal_message clock msg q_ts = .ok (next, effects) ∧
      next.start_trace_ts = s.start_trace_ts := by
  have set : s.start_trace_ts.evutil_timerisset = true :=
    (evutil_timerisset_iff _).mpr started
  unfold normal_message recheck_now_ts
  simp only [set, not_true_eq_false, if_false]
  split
  · exact ⟨_, _, rfl, rfl⟩
  · split
    · exact ⟨_, _, rfl, rfl⟩
    · exact ⟨_, _, rfl, rfl⟩

private theorem normal_message_unstarted (clock : Nat → Timeval)
    (unstarted : s.start_trace_ts = Timeval.zero) (msg : DNSMsg) (q_ts : Timeval) :
    s.normal_message clock msg q_ts = .error (.exit "trace start time is NOT set!") := by
  unfold normal_message
  rw [if_pos]
  rw [unstarted]
  decide

private theorem sync_message_unstarted (clock : Nat → Timeval)
    (unstarted : s.start_trace_ts = Timeval.zero) (q_ts : Timeval) :
    ∃ next, s.sync_message clock q_ts = .ok (next, []) ∧ next.start_trace_ts = q_ts := by
  have unset : ¬ s.start_trace_ts.evutil_timerisset = true := by
    rw [unstarted]
    decide
  unfold sync_message
  rw [if_neg unset]
  exact ⟨_, rfl, rfl⟩

private theorem normals_keep_start {frames : List Bytes} {effects : List Effect}
    (started : s.start_trace_ts ≠ Timeval.zero)
    (normal : ∀ frame ∈ frames, (codec.ParseFromArray frame).sync_time = false) :
    ∃ next more, frames.foldlM (manager_handle codec clock) (s, effects) = .ok (next, more) ∧
      next.start_trace_ts = s.start_trace_ts := by
  induction frames generalizing s effects with
  | nil => exact ⟨s, effects, rfl, rfl⟩
  | cons frame rest ih =>
      obtain ⟨next, more, ran, same⟩ := normal_message_started clock started
        (codec.ParseFromArray frame) (codec.ParseFromArray frame).q_ts
      have handled : manager_handle codec clock (s, effects) frame =
          .ok (next, effects ++ more) := by
        unfold manager_handle manager_message
        simp only [normal frame List.mem_cons_self, Bool.false_eq_true, if_false, ran]
      rw [List.foldlM_cons, handled]
      obtain ⟨final, all, later, kept⟩ := ih (by rw [same]; exact started)
        (fun other member => normal other (List.mem_cons_of_mem frame member))
      exact ⟨final, all, later, kept.trans same⟩

/-- The worker takes every front of these frames, and from the first on its start
of the trace is the time of that one. -/
def Accepts (codec : Codec) (clock : Nat → Timeval) (worker : Schedule) (frames : List Bytes) :
    Prop :=
  ∀ front back, frames = front ++ back →
    ∃ s effects, front.foldlM (manager_handle codec clock) (worker, []) = .ok (s, effects) ∧
      ∀ first, front.head? = some first → s.start_trace_ts = (codec.ParseFromArray first).q_ts

private theorem accepts_nil (worker : Schedule) : worker.Accepts codec clock [] := by
  intro front back split
  obtain ⟨rfl, _rest⟩ := List.append_eq_nil_iff.mp split.symm
  exact ⟨worker, [], rfl, fun first impossible => nomatch impossible⟩

private theorem sync_handled (clock : Nat → Timeval)
    (unstarted : s.start_trace_ts = Timeval.zero) {frame : Bytes}
    (sync : (codec.ParseFromArray frame).sync_time = true) :
    ∃ next, manager_handle codec clock (s, []) frame = .ok (next, []) ∧
      next.start_trace_ts = (codec.ParseFromArray frame).q_ts := by
  obtain ⟨next, ran, same⟩ := sync_message_unstarted clock unstarted
    (codec.ParseFromArray frame).q_ts
  refine ⟨next, ?_, same⟩
  unfold manager_handle manager_message
  simp only [sync, if_true, ran, List.append_nil]

/-- A worker takes an announcement and the messages behind it exactly when the
announced time is not zero or nothing is behind it. -/
theorem accepts_announced_iff (unstarted : s.start_trace_ts = Timeval.zero) {frame : Bytes}
    {rest : List Bytes} (sync : (codec.ParseFromArray frame).sync_time = true)
    (normal : ∀ other ∈ rest, (codec.ParseFromArray other).sync_time = false) :
    s.Accepts codec clock (frame :: rest) ↔
      (codec.ParseFromArray frame).q_ts ≠ Timeval.zero ∨ rest = [] := by
  obtain ⟨next, handled, started⟩ := sync_handled clock unstarted sync
  constructor
  · intro accepts
    cases rest with
    | nil => exact Or.inr rfl
    | cons second others =>
        left
        intro zero
        obtain ⟨final, effects, ran, _start⟩ := accepts [frame, second] others rfl
        have aborts := normal_message_unstarted clock (started.trans zero)
          (codec.ParseFromArray second) (codec.ParseFromArray second).q_ts
        have failed : manager_handle codec clock (next, []) second =
            .error (.exit "trace start time is NOT set!") := by
          unfold manager_handle manager_message
          simp only [normal second List.mem_cons_self, Bool.false_eq_true, if_false, aborts]
        have stops : [second].foldlM (manager_handle codec clock) (next, []) =
            .error (.exit "trace start time is NOT set!") := by
          rw [List.foldlM_cons, failed]
          rfl
        have stopped : [frame, second].foldlM (manager_handle codec clock) (s, []) =
            .error (.exit "trace start time is NOT set!") := by
          rw [List.foldlM_cons, handled]
          exact stops
        rw [stopped] at ran
        cases ran
  · intro condition front back split
    cases front with
    | nil => exact ⟨s, [], rfl, fun first impossible => nomatch impossible⟩
    | cons head taken =>
        obtain ⟨rfl, same⟩ := List.cons.inj split
        have kept : ∃ final effects,
            taken.foldlM (manager_handle codec clock) (next, []) = .ok (final, effects) ∧
              final.start_trace_ts = next.start_trace_ts := by
          rcases condition with set | nothing
          · apply normals_keep_start (by rw [started]; exact set)
            intro other member
            apply normal
            rw [same]
            exact List.mem_append_left _ member
          · rw [nothing] at same
            obtain ⟨rfl, _rest⟩ := List.append_eq_nil_iff.mp same.symm
            exact ⟨next, [], rfl, rfl⟩
        obtain ⟨final, effects, ran, unchanged⟩ := kept
        refine ⟨final, effects, ?_, ?_⟩
        · rw [List.foldlM_cons, handled]
          exact ran
        · intro first same
          rw [← Option.some.inj same, unchanged, started]

end Schedule

namespace Replay

def StartsLater (input : List DNSMsg) : Prop :=
  ∀ sync, announcement input = some sync → sync.q_ts ≠ Timeval.zero

theorem announcement_sync {input : List DNSMsg} {sync : DNSMsg}
    (announced : announcement input = some sync) : sync.sync_time = true := by
  obtain ⟨first, _found, marked⟩ := Option.map_eq_some_iff.mp announced
  rw [← marked, DNSMsg.sync_time_set_sync_time]

theorem normals_not_sync {input : List DNSMsg} {msg : DNSMsg} (member : msg ∈ normals input) :
    msg.sync_time = false := by
  obtain ⟨original, _listed, marked⟩ := List.mem_map.mp member
  rw [← marked, DNSMsg.sync_time_set_sync_time]

variable {Wkr : Type} [DecidableEq Wkr] {input : List DNSMsg} {workers : Wkr → Prop}
variable {drained : Prop} {route : Bytes → Option Wkr} {log : Wkr → List DNSMsg}
variable {codec : Codec} {clock : Nat → Timeval} {worker : Schedule}

theorem Replays.accepts_iff (replays : Replays input workers drained route log)
    (unstarted : worker.start_trace_ts = Timeval.zero) {fd : Wkr} {frames : List Bytes}
    (parsed : frames.map codec.ParseFromArray = log fd) :
    worker.Accepts codec clock frames ↔ StartsLater input ∨ frames.length ≤ 1 := by
  rcases replays.in_order fd with nothing | ⟨sync, rest, announced, same, front⟩
  · rw [nothing] at parsed
    rw [List.map_eq_nil_iff.mp parsed]
    exact iff_of_true (Schedule.accepts_nil worker) (Or.inr (Nat.zero_le _))
  · rw [same] at parsed
    obtain ⟨frame, others, rfl, rfl, parsedRest⟩ := List.map_eq_cons_iff.mp parsed
    have normal : ∀ other ∈ others, (codec.ParseFromArray other).sync_time = false := by
      intro other member
      have listed : codec.ParseFromArray other ∈ rest := by
        rw [← parsedRest]
        exact List.mem_map_of_mem member
      exact normals_not_sync (mem_share.mp (front.subset listed)).1
    rw [Schedule.accepts_announced_iff unstarted (announcement_sync announced) normal]
    apply or_congr
    · constructor
      · intro later other told
        rw [announced] at told
        rw [← Option.some.inj told]
        exact later
      · intro later
        exact later _ announced
    · rw [List.length_cons, ← List.length_eq_zero_iff]
      omega

/-- Once the replay is drained, its first message has reached a worker, so all
workers took theirs exactly when the trace starts later than zero. -/
theorem Replays.all_accept_iff (replays : Replays input workers drained route log)
    (unstarted : worker.start_trace_ts = Timeval.zero) {frames : Wkr → List Bytes}
    (parsed : ∀ fd, (frames fd).map codec.ParseFromArray = log fd) (finished : drained) :
    (∀ fd, worker.Accepts codec clock (frames fd)) ↔ StartsLater input := by
  constructor
  · intro accept sync announced
    obtain ⟨first, found, _marked⟩ := Option.map_eq_some_iff.mp announced
    have listed := List.mem_of_head? found
    obtain ⟨member, isValid⟩ := List.mem_filter.mp listed
    have valid : first.Valid := of_decide_eq_true isValid
    obtain ⟨fd, routed⟩ := replays.routed finished first member valid
    have shared : first.set_sync_time false ∈ share DNSMsg.src_ip route fd (normals input) :=
      mem_share.mpr ⟨mem_normals member valid, routed⟩
    rcases (replays.accepts_iff unstarted (parsed fd)).mp (accept fd) with later | short
    · exact later sync announced
    · rcases replays.whole finished fd with ⟨_nothing, empty⟩ | ⟨_sync, _announced, whole⟩
      · rw [empty] at shared
        cases shared
      · rw [← List.length_map codec.ParseFromArray, parsed fd, whole,
          List.length_cons] at short
        have some_message := List.length_pos_of_mem shared
        omega
  · intro later fd
    exact (replays.accepts_iff unstarted (parsed fd)).mpr (Or.inl later)

end Replay

/-- In both modes the handshake goes through, in every state that is reached and
at every worker, exactly where the trace starts later than zero or the worker has
seen no normal message yet; over whole replays, exactly for the traces that start
later than zero. -/
theorem handshake_accepts_iff {codec : Codec} {input : List DNSMsg}
    (serializes : Serializes codec input) (clock : Nat → Timeval) (non_wait : Bool) :
    (∀ workers draws, Forked workers →
      ∀ events s, Local.Run codec draws (Local.start input workers) events s →
        (∀ fd, Schedule.Accepts codec clock { non_wait := non_wait } (s.wires fd).received ↔
          StartsLater input ∨ (s.wires fd).received.length ≤ 1) ∧
        (s.Drained →
          ((∀ fd, Schedule.Accepts codec clock { non_wait := non_wait } (s.wires fd).received) ↔
            StartsLater input))) ∧
    (∀ files listen_ip listen_port n f p draws rand,
      Postman.new files listen_ip listen_port n f = .ok p → n < 2 ^ 31 →
      (f.GetNumClients ≠ 0 → f.GetFilterInput ≠ []) → p.DrawsInRange draws →
      ∀ events s, Distributed.Run codec draws rand (Distributed.start input p) events s →
        (∀ worker,
          Schedule.Accepts codec clock { non_wait := non_wait } (s.wires worker).received ↔
            StartsLater input ∨ (s.wires worker).received.length ≤ 1) ∧
        (s.Drained →
          ((∀ worker,
            Schedule.Accepts codec clock { non_wait := non_wait } (s.wires worker).received) ↔
              StartsLater input))) := by
  constructor
  · intro workers draws forked events s run
    have replays := (Local.run_invariant serializes forked run).replays
    exact ⟨fun fd => replays.accepts_iff rfl rfl,
      fun drained => replays.all_accept_iff rfl (fun _ => rfl) drained⟩
  · intro files listen_ip listen_port n f p draws rand made size set inRange events s run
    have replays := (Distributed.run_invariant serializes made size set inRange run).replays
    exact ⟨fun worker => replays.accepts_iff rfl rfl,
      fun drained => replays.all_accept_iff rfl (fun _ => rfl) drained⟩

private theorem sample_run (seconds : UInt8) (small : seconds = 0 ∨ seconds = 1) :
    ∃ s, Local.Run sample_codec (fun _ => 0) (Local.start [sample seconds none] [7])
      [.read_input, .worker_read 7, .worker_read 7] s ∧ s.Drained ∧
      (s.wires 7).received = [sample_text seconds (some true), sample_text seconds (some false)] := by
  rcases small with rfl | rfl
  · exact ⟨_, .next (by decide) rfl (.next (by decide) rfl (.next (by decide) rfl (.done _))),
      by decide, by decide⟩
  · exact ⟨_, .next (by decide) rfl (.next (by decide) rfl (.next (by decide) rfl (.done _))),
      by decide, by decide⟩

/-- A trace that starts after one second. -/
theorem handshake_accepts_one :
    ∃ s, Local.Run sample_codec (fun _ => 0) (Local.start [sample 1 none] [7])
        [.read_input, .worker_read 7, .worker_read 7] s ∧
      ((∀ fd, Schedule.Accepts sample_codec (fun _ => Timeval.zero) { non_wait := false }
        (s.wires fd).received) ↔ StartsLater [sample 1 none]) := by
  obtain ⟨s, run, drained, _received⟩ := sample_run 1 (Or.inr rfl)
  have samples : ∀ msg ∈ [sample 1 none], ∃ seconds : UInt8, seconds < 128 ∧
      msg = sample seconds none :=
    List.forall_mem_singleton.mpr ⟨1, by decide, rfl⟩
  exact ⟨s, run, ((handshake_accepts_iff (sample_serializes samples) (fun _ => Timeval.zero)
    false).1 [7] _ (by decide) _ s run).2 drained⟩

/-- A trace that starts at zero: its first query makes the worker exit. -/
theorem handshake_rejects_zero :
    ∃ s, Local.Run sample_codec (fun _ => 0) (Local.start [sample 0 none] [7])
        [.read_input, .worker_read 7, .worker_read 7] s ∧
      (sample 0 none).Valid ∧ (sample 0 none).q_ts = { tv_sec := 0, tv_usec := 0 } ∧
      ∀ clock non_wait,
        (s.wires 7).received.foldlM (Schedule.manager_handle sample_codec clock)
          ({ non_wait := non_wait }, []) = .error (.exit "trace start time is NOT set!") := by
  obtain ⟨s, run, _drained, received⟩ := sample_run 0 (Or.inl rfl)
  refine ⟨s, run, by decide, rfl, ?_⟩
  intro clock non_wait
  rw [received]
  rfl

end LDPlayer
