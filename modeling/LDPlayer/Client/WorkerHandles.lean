/-
The bufferevent of a worker for its manager: who writes to it and who frees it.

It is freed in its event callback, and the member still refers to it.  Every
callback that reports a result writes to that member.
-/
import LDPlayer.Client.Commander
import LDPlayer.Client.Net
import LDPlayer.Foundation.Handles
import LDPlayer.Foundation.Runs

set_option autoImplicit false

namespace LDPlayer

open Handles Runs

/-! ### Reports -/

namespace DNSClient

section reports

variable (get_query_rr_str : Bytes → Bytes)

def Answers (c : DNSClient) (buf : Bytes) : Prop :=
  message_key (get_id buf) (get_query_rr_str buf) ∈ c.query_table

def Completes (c : DNSClient) (bev : Ptr) (data : Bytes) : Prop :=
  let buffer := (c.server_msg_buffer.lookup bev).getD [] ++ data
  buffer.length > 2 ∧ get_id buffer ≤ (buffer.length - 2) % 2 ^ 16

def Reports (c : DNSClient) : Event → Prop
  | .send_query_tcp msg ids _ _ =>
      c.output_timing = true ∧ (raw_copy msg).length ≠ 0 ∧
        draw_id (get_query_rr_str (raw_copy msg)) c ids ≠ none
  | .server_udp_write_cb _ _ _ => c.output_timing = true
  | .server_udp_read_cb _ data _ =>
      if c.output_latency then c.Answers get_query_rr_str data else c.output_timing = true
  | .server_read_cb bev data _ =>
      (c.output_timing = true ∧ c.Completes bev data) ∨
        (c.output_latency = true ∧ c.Answers get_query_rr_str (data.drop 2))
  | _ => False

/-- From `c` to `d` lines were added to the results, if `condition` is met and only then. -/
def Adds (c d : DNSClient) (condition : Prop) : Prop :=
  ∃ lines, d.results = c.results ++ lines ∧ (lines ≠ [] ↔ condition)

end reports

section calls

variable {get_query_rr_str : Bytes → Bytes} {c d : DNSClient}

theorem adds_none (same : d.results = c.results) {condition : Prop} (fails : ¬ condition) :
    Adds c d condition :=
  ⟨[], by rw [same, List.append_nil], fun some => absurd rfl some, fun met => absurd met fails⟩

theorem adds_line {line : ResultLine} (added : d.results = c.results ++ [line]) {condition : Prop}
    (met : condition) : Adds c d condition :=
  ⟨[line], added, fun _some => met, fun _met => List.cons_ne_nil line []⟩

theorem record_message_time_adds {data addr : Bytes} {now : Timeval}
    (ran : c.record_message_time get_query_rr_str data addr now = .ok d) :
    ∃ line, d = { c with results := c.results ++ [line] } := by
  unfold record_message_time at ran
  by_cases short : data.length < 4
  · rw [if_pos short] at ran
    cases ran
  · rw [if_neg short] at ran
    exact ⟨_, (Except.ok.inj ran).symm⟩

theorem log_timing_adds {data addr : Bytes} {now : Timeval}
    (ran : c.log_timing get_query_rr_str data addr now = .ok d) :
    Adds c d (c.output_timing = true) := by
  unfold log_timing at ran
  by_cases recorded : c.output_timing = true
  · rw [if_pos recorded] at ran
    obtain ⟨line, rfl⟩ := record_message_time_adds ran
    exact adds_line rfl recorded
  · rw [if_neg recorded] at ran
    rw [← Except.ok.inj ran]
    exact adds_none rfl recorded

theorem sendto_manager_adds (buf : Bytes) (now : Timeval) (c : DNSClient) :
    Adds c (c.sendto_manager get_query_rr_str buf now) (c.Answers get_query_rr_str buf) := by
  unfold sendto_manager Answers
  cases found : c.query_table.lookup (message_key (get_id buf) (get_query_rr_str buf)) with
  | none =>
      simp only [found]
      exact adds_none rfl (HashTable.notMem_iff_lookup.mpr found)
  | some qt =>
      simp only [found]
      exact adds_line rfl (HashTable.mem_iff_lookup.mpr ⟨qt, found⟩)

theorem log_query_timing_results (id : Nat) (rr : Bytes) (now : Timeval) (c : DNSClient) :
    (c.log_query_timing id rr now).results = c.results ∧
      (c.log_query_timing id rr now).output_timing = c.output_timing := by
  unfold log_query_timing
  split <;> exact ⟨rfl, rfl⟩

private theorem send_query_udp_results {msg : DNSMsg} {ids : List Nat} {now : Timeval} {new_fd : Fd}
    {read_ev : Ptr}
    (ran : c.send_query_udp get_query_rr_str msg ids now new_fd read_ev = .ok d) :
    d.results = c.results := by
  rcases send_query_udp_cases ran with rfl | ⟨id, fd, ready, _long, _drawn, socket, rfl⟩
  · rfl
  · change (log_query_timing _ _ _ ready).results = c.results
    rw [(log_query_timing_results _ _ _ ready).1]
    rcases udp_socket_cases socket with
      ⟨_unified, _fd, rfl⟩ | ⟨_own, _found, rfl⟩ | ⟨_own, _absent, _fd, rfl⟩
    · rfl
    · rfl
    · rfl

private theorem tcp_connection_results {ip : Bytes} {new_bev bev : Ptr}
    (ran : c.tcp_connection ip new_bev = .ok (bev, d)) : d.results = c.results := by
  rcases tcp_connection_cases ran with ⟨_found, rfl⟩ | ⟨_absent, _bev, _nonnull, rfl⟩
  · rfl
  · rfl

private theorem send_query_tcp_adds {msg : DNSMsg} {ids : List Nat} {now : Timeval} {new_bev : Ptr}
    (ran : c.send_query_tcp get_query_rr_str msg ids now new_bev = .ok d) :
    Adds c d (c.output_timing = true ∧ (raw_copy msg).length ≠ 0 ∧
      draw_id (get_query_rr_str (raw_copy msg)) c ids ≠ none) := by
  unfold send_query_tcp at ran
  by_cases empty : (raw_copy msg).length = 0
  · simp only [if_pos empty] at ran
    rw [← Except.ok.inj ran]
    exact adds_none rfl (fun reports => reports.2.1 empty)
  by_cases short : (raw_copy msg).length < 2
  · simp only [if_neg empty, if_pos short] at ran
    cases ran
  simp only [if_neg empty, if_neg short] at ran
  cases drawn : draw_id (get_query_rr_str (raw_copy msg)) c ids with
  | none =>
      simp only [drawn] at ran
      rw [← Except.ok.inj ran]
      exact adds_none rfl (fun reports => reports.2.2 rfl)
  | some id =>
      simp only [drawn] at ran
      by_cases long : (raw_copy msg).length + 2 ≥ 2 ^ 16
      · rw [if_pos long] at ran
        cases ran
      rw [if_neg long] at ran
      split at ran
      · cases ran
      · rename_i ready timed
        split at ran
        · cases ran
        · rename_i bev connected connection
          obtain ⟨lines, added, some_iff⟩ := log_timing_adds timed
          obtain ⟨same, option⟩ :=
            log_query_timing_results id (get_query_rr_str (raw_copy msg)) now c
          rw [← Except.ok.inj ran]
          refine ⟨lines, ?_, ?_⟩
          · rw [tcp_connection_results connection, added, same]
          · rw [some_iff, option]
            constructor
            · intro timing
              exact ⟨timing, empty, Option.some_ne_none id⟩
            · intro reports
              exact reports.1

private theorem server_udp_write_cb_adds {fd : Fd} {msg : DNSMsg} {now : Timeval}
    (ran : c.server_udp_write_cb get_query_rr_str fd msg now = .ok d) :
    Adds c d (c.output_timing = true) := by
  unfold server_udp_write_cb at ran
  simp only at ran
  split at ran
  · cases ran
  · rename_i ready timed
    obtain ⟨lines, added, some_iff⟩ := log_timing_adds timed
    split at ran
    · rw [← Except.ok.inj ran]
      exact ⟨lines, added, some_iff⟩
    · cases ran

private theorem server_udp_read_cb_adds {fd : Fd} {data : Bytes} {now : Timeval}
    (ran : c.server_udp_read_cb get_query_rr_str fd data now = .ok d) :
    Adds c d (if c.output_latency then c.Answers get_query_rr_str data
      else c.output_timing = true) := by
  unfold server_udp_read_cb at ran
  by_cases latency : c.output_latency = true
  · rw [if_pos latency] at ran ⊢
    rw [← Except.ok.inj ran]
    exact sendto_manager_adds data now c
  · rw [if_neg latency] at ran ⊢
    exact log_timing_adds ran

/-- The loop over the messages of a connection adds one line for each. -/
theorem server_messages_adds (addr : Bytes) (now : Timeval) (buffer : Bytes) {rest : Bytes}
    (ran : server_messages get_query_rr_str addr now buffer c = .ok (rest, d)) :
    Adds c d (buffer.length > 2 ∧ get_id buffer ≤ (buffer.length - 2) % 2 ^ 16) := by
  induction buffer, c using server_messages.induct get_query_rr_str addr now with
  | case1 buffer c more sz stops =>
      rw [server_messages, dif_pos more] at ran
      simp only [sz] at stops
      simp only [if_pos stops] at ran
      rw [← (Prod.mk.inj (Except.ok.inj ran)).2]
      exact adds_none rfl (fun complete => Nat.not_le.mpr stops complete.2)
  | case2 buffer c more sz enough fault recorded =>
      rw [server_messages, dif_pos more] at ran
      simp only [sz] at enough recorded
      simp only [if_neg enough, recorded] at ran
      cases ran
  | case3 buffer c more sz enough next recorded ih =>
      rw [server_messages, dif_pos more] at ran
      simp only [sz] at enough recorded ih
      simp only [if_neg enough, recorded] at ran
      obtain ⟨lines, added, _some_iff⟩ := ih ran
      obtain ⟨line, rfl⟩ := record_message_time_adds recorded
      refine ⟨line :: lines, ?_, ?_⟩
      · rw [added, List.append_assoc]
        rfl
      · exact ⟨fun _some => ⟨more, Nat.not_lt.mp enough⟩, fun _met => List.cons_ne_nil line lines⟩
  | case4 buffer c ended =>
      rw [server_messages, dif_neg ended] at ran
      rw [← (Prod.mk.inj (Except.ok.inj ran)).2]
      exact adds_none rfl (fun complete => ended complete.1)

private theorem server_timing_adds {bev : Ptr} {data : Bytes} {now : Timeval}
    (ran : c.server_timing get_query_rr_str bev data now = .ok d) :
    Adds c d (c.Completes bev data) := by
  unfold Completes
  unfold server_timing at ran
  simp only [HashTable.subscript_value] at ran
  split at ran
  · cases ran
  · rename_i rest recorded messages
    obtain ⟨lines, added, some_iff⟩ := server_messages_adds _ _ _ messages
    rw [← Except.ok.inj ran]
    exact ⟨lines, added, some_iff⟩

private theorem server_read_cb_adds {bev : Ptr} {data : Bytes} {now : Timeval}
    (ran : c.server_read_cb get_query_rr_str bev data now = .ok d) :
    Adds c d ((c.output_timing = true ∧ c.Completes bev data) ∨
      (c.output_latency = true ∧ c.Answers get_query_rr_str (data.drop 2))) := by
  unfold server_read_cb at ran
  split at ran
  · cases ran
  · rename_i ready timed
    have timing : Adds c ready (c.output_timing = true ∧ c.Completes bev data) ∧
        ready.query_table = c.query_table := by
      by_cases timing : c.output_timing = true
      · rw [if_pos timing] at timed
        obtain ⟨results, rest, same⟩ := server_timing_cases timed
        obtain ⟨lines, added, some_iff⟩ := server_timing_adds timed
        refine ⟨⟨lines, added, ?_⟩, ?_⟩
        · rw [some_iff, and_iff_right timing]
        · rw [same]
      · rw [if_neg timing] at timed
        rw [← Except.ok.inj timed]
        exact ⟨adds_none rfl (fun both => timing both.1), rfl⟩
    obtain ⟨⟨lines, added, some_iff⟩, table⟩ := timing
    by_cases latency : c.output_latency = true
    · rw [if_pos latency] at ran
      split at ran
      · cases ran
      · obtain ⟨more, answered, more_iff⟩ :=
          sendto_manager_adds (data.drop 2) now ready
        rw [← Except.ok.inj ran]
        refine ⟨lines ++ more, ?_, ?_⟩
        · rw [answered, added, List.append_assoc]
        · have answers : ready.Answers get_query_rr_str (data.drop 2) ↔
              c.Answers get_query_rr_str (data.drop 2) := by
            unfold Answers
            rw [table]
          have joined : lines ++ more ≠ [] ↔ lines ≠ [] ∨ more ≠ [] := by
            rw [Ne, List.append_eq_nil_iff, not_and_or]
          rw [joined, some_iff, more_iff, answers, and_iff_right latency]
    · rw [if_neg latency] at ran
      rw [← Except.ok.inj ran]
      refine ⟨lines, added, ?_⟩
      rw [some_iff, or_iff_left]
      exact fun both => latency both.1

private theorem server_udp_read_timeout_cb_results (fd : Fd) :
    (c.server_udp_read_timeout_cb fd).results = c.results := by
  unfold server_udp_read_timeout_cb
  split
  · rfl
  · split
    · rfl
    · simp only
      split <;> rfl

private theorem server_event_cb_results (bev : Ptr) (which : Which) :
    (c.server_event_cb bev which).results = c.results := by
  unfold server_event_cb
  split <;> rfl

/-- Lines are added to the results by the callbacks that report, and by no other. -/
theorem step_adds (event : Event) (ran : c.step get_query_rr_str event = .ok d) :
    Adds c d (c.Reports get_query_rr_str event) := by
  cases event with
  | send_query_udp msg ids now new_fd read_ev =>
      exact adds_none (send_query_udp_results ran) (fun impossible => impossible)
  | send_query_tcp msg ids now new_bev => exact send_query_tcp_adds ran
  | server_udp_write_cb fd msg now => exact server_udp_write_cb_adds ran
  | server_udp_read_cb fd data now => exact server_udp_read_cb_adds ran
  | server_udp_read_timeout_cb fd =>
      rw [← Except.ok.inj ran]
      exact adds_none (server_udp_read_timeout_cb_results fd) (fun impossible => impossible)
  | server_read_cb bev data now => exact server_read_cb_adds ran
  | server_event_cb bev which =>
      rw [← Except.ok.inj ran]
      exact adds_none (server_event_cb_results bev which) (fun impossible => impossible)

end calls

end DNSClient

/-! ### The loop -/

/-- A worker and its bufferevent for the manager.  Nothing reads `history` and `lost`. -/
structure WorkerBevs where
  client : DNSClient
  manager_bev : Ptr
  looping : Bool := true
  history : List (Op Ptr)
  lost : Bool := false

namespace WorkerBevs

inductive Event where
  | manager_read_cb
  | manager_event_cb (which : Which)
  | callback (event : DNSClient.Event)
  | dispatch_returns
  deriving DecidableEq, Repr

def start (client : DNSClient) (manager_bev : Ptr) : WorkerBevs :=
  { client := client, manager_bev := manager_bev, history := [.create manager_bev] }

def manager_event_cb (which : Which) (w : WorkerBevs) : WorkerBevs :=
  if which.closes then { w with history := w.history ++ [.free w.manager_bev], lost := true }
  else w

def dispatch_returns (w : WorkerBevs) : WorkerBevs :=
  let looped := { w with looping := false }
  if w.manager_bev ≠ NULL then { looped with history := w.history ++ [.free w.manager_bev] }
  else looped

/-- Every line of the results is one write to the manager. -/
def step (get_query_rr_str : Bytes → Bytes) (w : WorkerBevs) : Event → Except Fault WorkerBevs
  | .manager_read_cb => .ok { w with history := w.history ++ [.use w.manager_bev] }
  | .manager_event_cb which => .ok (w.manager_event_cb which)
  | .callback event =>
      match w.client.step get_query_rr_str event with
      | .error fault => .error fault
      | .ok client =>
          let lines := client.results.drop w.client.results.length
          .ok { w with
                client := client
                history := w.history ++ (lines.map (fun _line => w.manager_bev)).map .use }
  | .dispatch_returns => .ok w.dispatch_returns

def admits (w : WorkerBevs) : Event → Prop
  | .manager_read_cb => w.looping = true ∧ Live w.history w.manager_bev
  | .manager_event_cb _ => w.looping = true ∧ Live w.history w.manager_bev
  | .callback event => w.looping = true ∧ w.client.admits event
  | .dispatch_returns => w.looping = true

instance (w : WorkerBevs) (event : Event) : Decidable (w.admits event) :=
  match event with
  | .manager_read_cb =>
      inferInstanceAs (Decidable (w.looping = true ∧ Live w.history w.manager_bev))
  | .manager_event_cb _ =>
      inferInstanceAs (Decidable (w.looping = true ∧ Live w.history w.manager_bev))
  | .callback event => inferInstanceAs (Decidable (w.looping = true ∧ w.client.admits event))
  | .dispatch_returns => inferInstanceAs (Decidable (w.looping = true))

abbrev Run (get_query_rr_str : Bytes → Bytes) : WorkerBevs → List Event → WorkerBevs → Prop :=
  Runs.Run (step get_query_rr_str) admits

/-- The step writes to manager_bev or frees it outside of its own callbacks. -/
def Touches (get_query_rr_str : Bytes → Bytes) (w : WorkerBevs) : Event → Prop
  | .callback event => w.client.Reports get_query_rr_str event
  | .dispatch_returns => True
  | _ => False

/-- It does so before the connection to the manager is lost. -/
def TouchesUnlost (get_query_rr_str : Bytes → Bytes) (w : WorkerBevs) (event : Event) : Prop :=
  w.Touches get_query_rr_str event → w.lost = false

structure Sound (w : WorkerBevs) : Prop where
  released : ReleasedOnce w.history
  nonnull : w.manager_bev ≠ NULL
  live : w.looping = true → (Live w.history w.manager_bev ↔ w.lost = false)

section steps

variable {get_query_rr_str : Bytes → Bytes} {w : WorkerBevs}

theorem start_sound (client : DNSClient) {manager_bev : Ptr} (nonnull : manager_bev ≠ NULL) :
    (start client manager_bev).Sound where
  released := by
    have allowed : Op.Allowed [] (.create manager_bev) := trivial
    exact releasedOnce_concat.mpr ⟨releasedOnce_nil, allowed⟩
  nonnull := nonnull
  live := by
    intro _looping
    simp [start, Live]

theorem Sound.manager_event_cb (sound : w.Sound) (live : Live w.history w.manager_bev)
    (which : Which) : (w.manager_event_cb which).Sound := by
  unfold WorkerBevs.manager_event_cb
  split
  · exact
      { released := releasedOnce_concat.mpr ⟨sound.released, live⟩
        nonnull := sound.nonnull
        live := by simp [Live] }
  · exact sound

theorem Sound.use (sound : w.Sound) (client : DNSClient) {used : List Ptr}
    (live : ∀ bev ∈ used, Live w.history bev) :
    Sound { w with client := client, history := w.history ++ used.map .use } where
  released := releasedOnce_append.mpr ⟨sound.released, allows_use.mpr live⟩
  nonnull := sound.nonnull
  live := by
    intro looping
    rw [live_append_use]
    exact sound.live looping

theorem Sound.callback (sound : w.Sound) (looping : w.looping = true) (client : DNSClient)
    (lines : List ResultLine) :
    (ReleasedOnce (w.history ++ (lines.map (fun _line => w.manager_bev)).map .use) ↔
      (lines ≠ [] → w.lost = false)) ∧
      ((lines ≠ [] → w.lost = false) →
        Sound { w with
                client := client
                history := w.history ++ (lines.map (fun _line => w.manager_bev)).map .use }) := by
  have live : (∀ bev ∈ lines.map (fun _line => w.manager_bev), Live w.history bev) ↔
      (lines ≠ [] → w.lost = false) := by
    rw [← sound.live looping]
    constructor
    · intro all some
      obtain ⟨line, member⟩ := List.exists_mem_of_ne_nil lines some
      exact all w.manager_bev (List.mem_map.mpr ⟨line, member, rfl⟩)
    · intro all bev member
      obtain ⟨line, own, rfl⟩ := List.mem_map.mp member
      exact all (List.ne_nil_of_mem own)
  refine ⟨?_, fun unlost => sound.use client (live.mpr unlost)⟩
  rw [releasedOnce_append, and_iff_right sound.released, allows_use]
  exact live

theorem Sound.dispatch_returns (sound : w.Sound) (looping : w.looping = true) :
    (ReleasedOnce w.dispatch_returns.history ↔ w.lost = false) ∧
      (w.lost = false → w.dispatch_returns.Sound) := by
  have released : ReleasedOnce (w.history ++ [.free w.manager_bev]) ↔ w.lost = false := by
    rw [releasedOnce_concat, and_iff_right sound.released]
    exact sound.live looping
  unfold WorkerBevs.dispatch_returns
  rw [if_pos sound.nonnull]
  refine ⟨released, fun unlost => ?_⟩
  exact
    { released := released.mpr unlost
      nonnull := sound.nonnull
      live := by intro looping; cases looping }

theorem Sound.step (sound : w.Sound) {event : Event} {next : WorkerBevs}
    (admitted : w.admits event) (stepped : w.step get_query_rr_str event = .ok next) :
    (ReleasedOnce next.history ↔ w.TouchesUnlost get_query_rr_str event) ∧
      (w.TouchesUnlost get_query_rr_str event → next.Sound) := by
  unfold TouchesUnlost
  cases event with
  | manager_read_cb =>
      rw [← Except.ok.inj stepped]
      have read : Sound { w with history := w.history ++ [w.manager_bev].map .use } := by
        apply sound.use w.client
        intro bev member
        rw [List.mem_singleton.mp member]
        exact admitted.2
      exact ⟨⟨fun _released impossible => impossible.elim, fun _unlost => read.released⟩,
        fun _unlost => read⟩
  | manager_event_cb which =>
      rw [← Except.ok.inj stepped]
      have heard := sound.manager_event_cb admitted.2 which
      exact ⟨⟨fun _released impossible => impossible.elim, fun _unlost => heard.released⟩,
        fun _unlost => heard⟩
  | callback event =>
      simp only [WorkerBevs.step] at stepped
      cases ran : w.client.step get_query_rr_str event with
      | error fault =>
          rw [ran] at stepped
          cases stepped
      | ok client =>
          rw [ran] at stepped
          obtain ⟨lines, added, reports⟩ := DNSClient.step_adds event ran
          have new : client.results.drop w.client.results.length = lines := by
            rw [added, List.drop_left]
          have wrote := sound.callback admitted.1 client lines
          rw [reports] at wrote
          rw [← Except.ok.inj stepped]
          simp only [new]
          exact wrote
  | dispatch_returns =>
      rw [← Except.ok.inj stepped]
      obtain ⟨decides, keeps⟩ := sound.dispatch_returns admitted
      exact ⟨decides.trans (imp_iff_right trivial).symm, fun unlost => keeps (unlost trivial)⟩

theorem lost_iff {final : WorkerBevs} {events : List Event}
    (run : Run get_query_rr_str w events final) :
    final.lost = true ↔
      w.lost = true ∨ ∃ event ∈ events, ∃ which, event = .manager_event_cb which ∧
        which.closes = true := by
  apply Runs.Run.marked_iff (fun w => w.lost = true)
    (fun event => ∃ which, event = .manager_event_cb which ∧ which.closes = true) _ run
  intro w event next stepped
  cases event with
  | manager_read_cb =>
      rw [← Except.ok.inj stepped]
      simp
  | manager_event_cb which =>
      rw [← Except.ok.inj stepped]
      unfold manager_event_cb
      by_cases closes : which.closes = true
      · simp [closes]
      · simp [closes]
  | callback event =>
      simp only [WorkerBevs.step] at stepped
      split at stepped
      · cases stepped
      · rw [← Except.ok.inj stepped]
        simp
  | dispatch_returns =>
      rw [← Except.ok.inj stepped]
      unfold dispatch_returns
      simp only
      split <;> simp

theorem Sound.allStates_iff (sound : w.Sound) {final : WorkerBevs} {events : List Event}
    (run : Run get_query_rr_str w events final) :
    AllStates (WorkerBevs.step get_query_rr_str) (fun w => ReleasedOnce w.history) w events ↔
      AllSteps (WorkerBevs.step get_query_rr_str) (TouchesUnlost get_query_rr_str) w events := by
  refine run.allStates_iff_allSteps (fun _ sound => sound.released) ?_ ?_ sound
  · intro w event next sound admitted stepped
    exact (sound.step admitted stepped).1
  · intro w event next sound admitted stepped good
    exact (sound.step admitted stepped).2 good

end steps

end WorkerBevs

end LDPlayer
