/-
Scheduled UDP writes and the sockets they were scheduled on.

A write event holds a descriptor.  As long as no read timeout closes a socket
that still has a write to come, every scheduled write finds its own source's
socket open.
-/
import LDPlayer.Client.Tables

set_option autoImplicit false

namespace LDPlayer

open Text HashTable

namespace DNSClient

variable {get_query_rr_str : Bytes → Bytes}

/-- The descriptor of the write is open and belongs to the source of its query. -/
def WriteReady (c : DNSClient) (write : Fd × DNSMsg) : Prop :=
  write.1 ∈ c.open_fds ∧ c.udpfd2src.lookup write.1 = some write.2.src_ip

def WritesReady (c : DNSClient) : Prop := ∀ write ∈ c.write_events, c.WriteReady write

def ClosesIdle (c : DNSClient) (event : Event) : Prop :=
  ∀ fd, event = .server_udp_read_timeout_cb fd → 0 ≤ fd → fd ∈ c.udp_read_event →
    ∀ write ∈ c.write_events, write.1 ≠ fd

private theorem closesIdle_of_ne {c : DNSClient} {event : Event}
    (other : ∀ fd, event ≠ .server_udp_read_timeout_cb fd) : c.ClosesIdle event := by
  intro fd same
  exact absurd same (other fd)

theorem WritesReady.of_same_sockets {c d : DNSClient} (ready : c.WritesReady)
    (scheduled : ∀ write ∈ d.write_events, write ∈ c.write_events)
    (fds : d.open_fds = c.open_fds) (sources : d.udpfd2src = c.udpfd2src) : d.WritesReady := by
  intro write member
  unfold WriteReady
  rw [fds, sources]
  exact ready write (scheduled write member)

/-! ### Every step but a timeout -/

private theorem udp_socket_ready {c d : DNSClient} {ip : Bytes} {new_fd fd : Fd} {read_ev : Ptr}
    (consistent : c.toSockets.Consistent) (each : c.socket_unify_udp = false)
    (ready : c.WritesReady) (closed : new_fd ∉ c.open_fds)
    (ran : c.udp_socket ip new_fd read_ev = .ok (fd, d)) :
    d.WritesReady ∧ fd ∈ d.open_fds ∧ d.udpfd2src.lookup fd = some ip := by
  rcases udp_socket_cases ran with
    ⟨unified, _fd, _same⟩ | ⟨_each, found, rfl⟩ | ⟨_each, unmapped, rfl, rfl⟩
  · rw [each] at unified
    cases unified
  · have mapped := (consistent.udp ip fd).mp found
    exact ⟨ready, consistent.opened fd (mem_iff_lookup.mpr ⟨ip, mapped⟩), mapped⟩
  · have freshFd : fd ∉ c.udpfd2src := fun present => closed (consistent.opened fd present)
    simp only [WritesReady, WriteReady, emplace_of_absent freshFd]
    refine ⟨?_, List.mem_cons_self, AList.lookup_insert _⟩
    intro write member
    obtain ⟨isOpen, mapped⟩ := ready write member
    have different : write.1 ≠ fd := by
      intro same
      rw [same] at isOpen
      exact closed isOpen
    exact ⟨List.mem_cons_of_mem fd isOpen, by rw [AList.lookup_insert_ne different]; exact mapped⟩

private theorem send_query_udp_ready {c d : DNSClient} {msg : DNSMsg} {ids : List Nat}
    {now : Timeval}
    {new_fd : Fd} {read_ev : Ptr} (consistent : c.toSockets.Consistent)
    (each : c.socket_unify_udp = false) (ready : c.WritesReady) (closed : new_fd ∉ c.open_fds)
    (ran : c.send_query_udp get_query_rr_str msg ids now new_fd read_ev = .ok d) :
    d.WritesReady := by
  rcases send_query_udp_cases ran with rfl | ⟨id, fd, next, _packet, _drawn, socket, rfl⟩
  · exact ready
  · obtain ⟨kept, isOpen, mapped⟩ := udp_socket_ready consistent each ready closed socket
    intro write member
    simp only [WriteReady, log_query_timing_toSockets]
    simp only [log_query_timing_write_events] at member
    rcases List.mem_append.mp member with old | new
    · exact kept write old
    · rw [List.mem_singleton] at new
      subst new
      exact ⟨isOpen, mapped⟩

private theorem send_query_tcp_ready {c d : DNSClient} {msg : DNSMsg} {ids : List Nat}
    {now : Timeval}
    {new_bev : Ptr} (ready : c.WritesReady)
    (ran : c.send_query_tcp get_query_rr_str msg ids now new_bev = .ok d) : d.WritesReady := by
  rcases send_query_tcp_cases ran with rfl | ⟨id, results, bev, _packet, _drawn, connection⟩
  · exact ready
  · have same : d.write_events = c.write_events ∧ d.open_fds = c.open_fds ∧
        d.udpfd2src = c.udpfd2src := by
      rcases tcp_connection_cases connection with ⟨_found, rfl⟩ | ⟨_none, _bev, _live, rfl⟩ <;>
        simp
    exact ready.of_same_sockets (by rw [same.1]; exact fun _ member => member) same.2.1 same.2.2

private theorem server_event_cb_ready {c : DNSClient} (ready : c.WritesReady) (bev : Ptr)
    (which : Which) :
    (c.server_event_cb bev which).WritesReady := by
  unfold server_event_cb
  by_cases connected : which = .connected
  · rw [if_pos connected]
    exact ready
  · rw [if_neg connected]
    exact ready.of_same_sockets (fun _ member => member) rfl rfl

private theorem server_read_cb_ready {c d : DNSClient} {bev : Ptr} {data : Bytes} {now : Timeval}
    (ready : c.WritesReady) (ran : c.server_read_cb get_query_rr_str bev data now = .ok d) :
    d.WritesReady := by
  obtain ⟨middle, reached, outcome⟩ := server_read_cb_cases ran
  have kept : middle.WritesReady := by
    rcases reached with rfl | ⟨_timing, results, rest, rfl⟩
    · exact ready
    · exact ready.of_same_sockets (fun _ member => member) rfl rfl
  rcases outcome with ⟨_latency, _long, rfl⟩ | ⟨_latency, rfl⟩
  · exact kept.of_same_sockets (by simp) (by simp) (by simp)
  · exact kept

/-! ### Timeouts -/

/-- A timeout keeps the scheduled writes ready exactly when it closes an idle
socket or none. -/
theorem timeout_ready_iff {c : DNSClient} (consistent : c.toSockets.Consistent)
    (ready : c.WritesReady) (fd : Fd) :
    (c.server_udp_read_timeout_cb fd).WritesReady ↔
      c.ClosesIdle (.server_udp_read_timeout_cb fd) := by
  unfold server_udp_read_timeout_cb
  by_cases negative : fd < 0
  · rw [if_pos negative]
    refine iff_of_true ready ?_
    intro other same nonneg
    obtain rfl := Event.server_udp_read_timeout_cb.inj same
    exact absurd negative (Int.not_lt.mpr nonneg)
  · rw [if_neg negative]
    by_cases registered : fd ∈ c.udp_read_event
    · rw [if_neg (not_not.mpr registered)]
      obtain ⟨ip, mapped⟩ := mem_iff_lookup.mp ((consistent.readEvents fd).mp registered)
      simp only [mapped]
      constructor
      · intro after other same _nonneg _registered write member clash
        obtain rfl := Event.server_udp_read_timeout_cb.inj same
        obtain ⟨isOpen, _source⟩ := after write member
        rw [clash] at isOpen
        simp only [List.mem_filter, ne_eq, decide_eq_true_eq] at isOpen
        exact isOpen.2 trivial
      · intro idle write member
        have different := idle fd rfl (Int.not_lt.mp negative) registered write member
        obtain ⟨isOpen, source⟩ := ready write member
        refine ⟨List.mem_filter.mpr ⟨isOpen, by simpa using different⟩, ?_⟩
        change (c.udpfd2src.erase fd).lookup write.1 = _
        rw [AList.lookup_erase_ne different]
        exact source
    · rw [if_pos registered]
      refine iff_of_true ready ?_
      intro other same _nonneg present
      obtain rfl := Event.server_udp_read_timeout_cb.inj same
      exact absurd present registered

/-! ### Runs -/

theorem step_ready_iff {c d : DNSClient} {event : Event} (consistent : c.toSockets.Consistent)
    (each : c.socket_unify_udp = false) (ready : c.WritesReady) (admitted : c.admits event)
    (stepped : c.step get_query_rr_str event = .ok d) :
    d.WritesReady ↔ c.ClosesIdle event := by
  cases event with
  | send_query_udp msg ids now new_fd read_ev =>
      refine iff_of_true ?_ (closesIdle_of_ne (by intro fd same; cases same))
      exact send_query_udp_ready consistent each ready admitted stepped
  | send_query_tcp msg ids now new_bev =>
      refine iff_of_true ?_ (closesIdle_of_ne (by intro fd same; cases same))
      exact send_query_tcp_ready ready stepped
  | server_udp_write_cb fd msg now =>
      refine iff_of_true ?_ (closesIdle_of_ne (by intro fd same; cases same))
      obtain ⟨_isOpen, results, rfl⟩ := server_udp_write_cb_cases stepped
      exact ready.of_same_sockets (fun _ member => List.mem_of_mem_erase member) rfl rfl
  | server_udp_read_cb fd data now =>
      refine iff_of_true ?_ (closesIdle_of_ne (by intro fd same; cases same))
      rcases server_udp_read_cb_cases stepped with ⟨_latency, rfl⟩ | ⟨_latency, results, rfl⟩
      · exact ready.of_same_sockets (by simp) (by simp) (by simp)
      · exact ready.of_same_sockets (fun _ member => member) rfl rfl
  | server_udp_read_timeout_cb fd =>
      rw [← Except.ok.inj stepped]
      exact timeout_ready_iff consistent ready fd
  | server_read_cb bev data now =>
      refine iff_of_true ?_ (closesIdle_of_ne (by intro fd same; cases same))
      exact server_read_cb_ready ready stepped
  | server_event_cb bev which =>
      refine iff_of_true ?_ (closesIdle_of_ne (by intro fd same; cases same))
      rw [← Except.ok.inj stepped]
      exact server_event_cb_ready ready bev which

structure Scheduled (c : DNSClient) : Prop where
  consistent : c.toSockets.Consistent
  each : c.socket_unify_udp = false
  ready : c.WritesReady

/-- A run passes through states with ready writes only, exactly when each of
its timeouts closes an idle socket or none. -/
theorem scheduled_writes_ready_iff {start c : DNSClient} {events : List Event}
    (initial : start.Initial) (each : start.socket_unify_udp = false)
    (run : Run get_query_rr_str start events c) :
    Runs.AllStates (step get_query_rr_str) WritesReady start events ↔
      Runs.AllSteps (step get_query_rr_str) ClosesIdle start events := by
  have ready : start.WritesReady := by
    obtain ⟨_, _, rfl⟩ := initial
    intro write member
    cases member
  have scheduled : start.Scheduled := ⟨initial.consistent, each, ready⟩
  refine Runs.Run.allStates_iff_allSteps ?_ ?_ ?_ run scheduled
  · intro state holds
    exact holds.ready
  · intro state event next holds admitted stepped
    exact step_ready_iff holds.consistent holds.each holds.ready admitted stepped
  · intro state event next holds admitted stepped good
    have options := congrArg Options.socket_unify_udp (step_toOptions stepped)
    exact
      { consistent := step_consistent holds.consistent admitted stepped
        each := options.trans holds.each
        ready := (step_ready_iff holds.consistent holds.each holds.ready admitted stepped).mpr
          good }

def sent_query : DNSMsg := (sample_query (ascii "10.0.0.1")).set_raw ([0, 7] ++ query_for_a)

theorem scheduled_writes_ready_sent :
    ∃ c, Run asks_for_a {}
        [.send_query_udp (sample_query (ascii "10.0.0.1")) [7] Timeval.zero 5 1000,
          .server_udp_write_cb 5 sent_query Timeval.zero] c ∧
      (Runs.AllStates (step asks_for_a) WritesReady {}
          [.send_query_udp (sample_query (ascii "10.0.0.1")) [7] Timeval.zero 5 1000,
            .server_udp_write_cb 5 sent_query Timeval.zero] ↔
        Runs.AllSteps (step asks_for_a) ClosesIdle {}
          [.send_query_udp (sample_query (ascii "10.0.0.1")) [7] Timeval.zero 5 1000,
            .server_udp_write_cb 5 sent_query Timeval.zero]) := by
  have run : ∃ c, Run asks_for_a {}
      [.send_query_udp (sample_query (ascii "10.0.0.1")) [7] Timeval.zero 5 1000,
        .server_udp_write_cb 5 sent_query Timeval.zero] c :=
    ⟨_, .next (by decide) rfl (.next (by decide) rfl (.done _))⟩
  obtain ⟨c, reached⟩ := run
  exact ⟨c, reached, scheduled_writes_ready_iff ⟨{}, [], rfl⟩ rfl reached⟩

/-- A query of `10.0.0.1` waits for its write when the socket of that source
times out; the descriptor is then opened again for `10.0.0.2`. -/
theorem scheduled_write_on_other_socket :
    Initial {} ∧ ∃ c, Run asks_for_a {}
        [.send_query_udp (sample_query (ascii "10.0.0.1")) [7] Timeval.zero 5 1000,
          .server_udp_read_timeout_cb 5,
          .send_query_udp (sample_query (ascii "10.0.0.2")) [8] Timeval.zero 5 1001] c ∧
      (5, sent_query) ∈ c.write_events ∧
      c.udpfd2src.lookup 5 = some (ascii "10.0.0.2") ∧ ¬ c.WritesReady := by
  refine ⟨⟨{}, [], rfl⟩, _,
    .next (by decide) rfl (.next (by decide) rfl (.next (by decide) rfl (.done _))),
    by decide, by decide, ?_⟩
  intro ready
  have write := ready (5, sent_query) (by decide)
  exact absurd write.2 (by decide)

end DNSClient

end LDPlayer
