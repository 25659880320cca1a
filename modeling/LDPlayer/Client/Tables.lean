/-
The worker's connection tables, over any order of its callbacks.

The tables of sockets and of stream connections are inverse to each other in
every state.  A scheduled write, in contrast, only holds a descriptor: a read
timeout closes the socket whether or not a write on it is still to come.
-/
import LDPlayer.Client.Net
import LDPlayer.Foundation.Runs

set_option autoImplicit false

namespace LDPlayer

open HashTable

/-! ### The tables -/

namespace Sockets

structure Consistent (s : Sockets) : Prop where
  udp : Inverse s.src2udpfd s.udpfd2src
  readEvents : SameKeys s.udp_read_event s.udpfd2src
  tcp : Inverse s.src2bev s.bev2src
  buffers : SameKeys s.server_msg_buffer s.bev2src
  opened : ∀ fd, fd ∈ s.udpfd2src → fd ∈ s.open_fds
  alive : ∀ bev, bev ∈ s.live_bevs ↔ bev ∈ s.bev2src

theorem Consistent.open_udp {s : Sockets} (consistent : s.Consistent) {ip : Bytes} {new_fd : Fd}
    (read_ev : Ptr) (unmapped : s.src2udpfd.lookup ip = none) (closed : new_fd ∉ s.open_fds) :
    Consistent
      { s with
        open_fds := new_fd :: s.open_fds
        src2udpfd := s.src2udpfd.emplace ip new_fd
        udpfd2src := s.udpfd2src.emplace new_fd ip
        udp_read_event := s.udp_read_event.insert new_fd read_ev } := by
  have freshIp := notMem_iff_lookup.mpr unmapped
  have freshFd : new_fd ∉ s.udpfd2src := fun present => closed (consistent.opened new_fd present)
  exact
    { udp := by
        simp only [emplace_of_absent freshIp, emplace_of_absent freshFd]
        exact consistent.udp.insert freshIp freshFd
      readEvents := by
        simp only [emplace_of_absent freshFd]
        exact consistent.readEvents.insert new_fd read_ev ip
      tcp := consistent.tcp
      buffers := consistent.buffers
      opened := by
        intro fd present
        simp only [emplace_of_absent freshFd, AList.mem_insert] at present
        rcases present with same | old
        · rw [same]
          exact List.mem_cons_self
        · exact List.mem_cons_of_mem new_fd (consistent.opened fd old)
      alive := consistent.alive }

/-- A read timeout closes the socket and takes its entries along. -/
theorem Consistent.close_udp {s : Sockets} (consistent : s.Consistent) {ip : Bytes} {fd : Fd}
    (mapped : s.udpfd2src.lookup fd = some ip) :
    Consistent
      { s with
        open_fds := s.open_fds.filter (fun other => other ≠ fd)
        src2udpfd := s.src2udpfd.erase ip
        udpfd2src := s.udpfd2src.erase fd
        udp_read_event := s.udp_read_event.erase fd } where
  udp := consistent.udp.erase mapped
  readEvents := consistent.readEvents.erase fd
  tcp := consistent.tcp
  buffers := consistent.buffers
  opened := by
    intro other present
    simp only [AList.mem_erase] at present
    exact List.mem_filter.mpr ⟨consistent.opened other present.2, by simpa using present.1⟩
  alive := consistent.alive

theorem Consistent.open_tcp {s : Sockets} (consistent : s.Consistent) {ip : Bytes} {new_bev : Ptr}
    (unmapped : s.src2bev.lookup ip = none) (free : new_bev ∉ s.live_bevs) :
    Consistent
      { s with
        live_bevs := new_bev :: s.live_bevs
        src2bev := s.src2bev.emplace ip new_bev
        bev2src := s.bev2src.emplace new_bev ip
        server_msg_buffer := s.server_msg_buffer.emplace new_bev [] } := by
  have freshIp := notMem_iff_lookup.mpr unmapped
  have freshBev : new_bev ∉ s.bev2src := fun present => free ((consistent.alive new_bev).mpr present)
  have freshBuffer : new_bev ∉ s.server_msg_buffer :=
    fun present => freshBev ((consistent.buffers new_bev).mp present)
  exact
    { udp := consistent.udp
      readEvents := consistent.readEvents
      tcp := by
        simp only [emplace_of_absent freshIp, emplace_of_absent freshBev]
        exact consistent.tcp.insert freshIp freshBev
      buffers := by
        simp only [emplace_of_absent freshBuffer, emplace_of_absent freshBev]
        exact consistent.buffers.insert new_bev [] ip
      opened := consistent.opened
      alive := by
        intro bev
        simp only [emplace_of_absent freshBev, AList.mem_insert, List.mem_cons,
          consistent.alive bev] }

theorem Consistent.close_tcp {s : Sockets} (consistent : s.Consistent) {ip : Bytes} {bev : Ptr}
    (mapped : s.bev2src.lookup bev = some ip) :
    Consistent
      { s with
        src2bev := s.src2bev.erase ip
        bev2src := s.bev2src.erase bev
        server_msg_buffer := s.server_msg_buffer.erase bev
        live_bevs := s.live_bevs.filter (fun other => other ≠ bev) } where
  udp := consistent.udp
  readEvents := consistent.readEvents
  tcp := consistent.tcp.erase mapped
  buffers := consistent.buffers.erase bev
  opened := consistent.opened
  alive := by
    intro other
    simp only [AList.mem_erase, List.mem_filter, ne_eq, decide_eq_true_eq]
    rw [consistent.alive other]
    exact and_comm

theorem Consistent.buffer {s : Sockets} (consistent : s.Consistent) {bev : Ptr}
    (alive : bev ∈ s.live_bevs) (rest : Bytes) :
    Consistent { s with server_msg_buffer := s.server_msg_buffer.insert bev rest } where
  udp := consistent.udp
  readEvents := consistent.readEvents
  tcp := consistent.tcp
  buffers := by
    intro other
    have present := (consistent.alive bev).mp alive
    rw [AList.mem_insert, consistent.buffers other]
    constructor
    · intro listed
      rcases listed with rfl | member
      · exact present
      · exact member
    · exact Or.inr
  opened := consistent.opened
  alive := consistent.alive

end Sockets

namespace DNSClient

/-! ### What every step keeps -/

variable {get_query_rr_str : Bytes → Bytes}

@[simp] theorem log_query_timing_toSockets (id : Nat) (rr : Bytes) (now : Timeval) (c : DNSClient) :
    (c.log_query_timing id rr now).toSockets = c.toSockets := by
  unfold log_query_timing
  split <;> rfl

@[simp] theorem log_query_timing_toOptions (id : Nat) (rr : Bytes) (now : Timeval) (c : DNSClient) :
    (c.log_query_timing id rr now).toOptions = c.toOptions := by
  unfold log_query_timing
  split <;> rfl

@[simp] theorem log_query_timing_write_events (id : Nat) (rr : Bytes) (now : Timeval)
    (c : DNSClient) : (c.log_query_timing id rr now).write_events = c.write_events := by
  unfold log_query_timing
  split <;> rfl

@[simp] theorem sendto_manager_toSockets (buf : Bytes) (now : Timeval) (c : DNSClient) :
    (c.sendto_manager get_query_rr_str buf now).toSockets = c.toSockets := by
  unfold sendto_manager
  simp only
  split <;> rfl

@[simp] theorem sendto_manager_toOptions (buf : Bytes) (now : Timeval) (c : DNSClient) :
    (c.sendto_manager get_query_rr_str buf now).toOptions = c.toOptions := by
  unfold sendto_manager
  simp only
  split <;> rfl

@[simp] theorem sendto_manager_write_events (buf : Bytes) (now : Timeval) (c : DNSClient) :
    (c.sendto_manager get_query_rr_str buf now).write_events = c.write_events := by
  unfold sendto_manager
  simp only
  split <;> rfl

private theorem udp_socket_consistent {c d : DNSClient} {ip : Bytes} {new_fd fd : Fd}
    {read_ev : Ptr}
    (consistent : c.toSockets.Consistent) (closed : new_fd ∉ c.open_fds)
    (ran : c.udp_socket ip new_fd read_ev = .ok (fd, d)) : d.toSockets.Consistent := by
  rcases udp_socket_cases ran with
    ⟨_unified, _fd, rfl⟩ | ⟨_each, _found, rfl⟩ | ⟨_each, unmapped, rfl, rfl⟩
  · exact consistent
  · exact consistent
  · exact consistent.open_udp read_ev unmapped closed

private theorem tcp_connection_consistent {c d : DNSClient} {ip : Bytes} {new_bev bev : Ptr}
    (consistent : c.toSockets.Consistent) (free : new_bev ∉ c.live_bevs)
    (ran : c.tcp_connection ip new_bev = .ok (bev, d)) : d.toSockets.Consistent := by
  rcases tcp_connection_cases ran with ⟨_found, rfl⟩ | ⟨unmapped, rfl, _live, rfl⟩
  · exact consistent
  · exact consistent.open_tcp unmapped free

private theorem server_udp_read_timeout_cb_consistent {c : DNSClient}
    (consistent : c.toSockets.Consistent) (fd : Fd) :
    (c.server_udp_read_timeout_cb fd).toSockets.Consistent := by
  unfold server_udp_read_timeout_cb
  by_cases negative : fd < 0
  · rw [if_pos negative]
    exact consistent
  · rw [if_neg negative]
    by_cases registered : fd ∈ c.udp_read_event
    · rw [if_neg (not_not.mpr registered)]
      obtain ⟨ip, mapped⟩ := mem_iff_lookup.mp ((consistent.readEvents fd).mp registered)
      simp only [mapped]
      exact consistent.close_udp mapped
    · rw [if_pos registered]
      exact consistent

private theorem server_event_cb_consistent {c : DNSClient} (consistent : c.toSockets.Consistent)
    {bev : Ptr} (alive : bev ∈ c.live_bevs) (which : Which) :
    (c.server_event_cb bev which).toSockets.Consistent := by
  unfold server_event_cb
  by_cases connected : which = .connected
  · rw [if_pos connected]
    exact consistent
  · rw [if_neg connected]
    obtain ⟨ip, mapped⟩ := mem_iff_lookup.mp ((consistent.alive bev).mp alive)
    simp only [subscript_of_lookup mapped]
    exact consistent.close_tcp mapped

theorem step_consistent {c d : DNSClient} {event : Event} (consistent : c.toSockets.Consistent)
    (admitted : c.admits event) (stepped : c.step get_query_rr_str event = .ok d) :
    d.toSockets.Consistent := by
  cases event with
  | send_query_udp msg ids now new_fd read_ev =>
      rcases send_query_udp_cases stepped with rfl | ⟨id, fd, ready, _packet, _drawn, socket, rfl⟩
      · exact consistent
      · rw [log_query_timing_toSockets]
        exact udp_socket_consistent consistent admitted socket
  | send_query_tcp msg ids now new_bev =>
      rcases send_query_tcp_cases stepped with rfl | ⟨id, results, bev, _packet, _drawn, connection⟩
      · exact consistent
      · refine tcp_connection_consistent ?_ ?_ connection
        · rw [log_query_timing_toSockets]
          exact consistent
        · rw [log_query_timing_toSockets]
          exact admitted
  | server_udp_write_cb fd msg now =>
      obtain ⟨_isOpen, results, rfl⟩ := server_udp_write_cb_cases stepped
      exact consistent
  | server_udp_read_cb fd data now =>
      rcases server_udp_read_cb_cases stepped with ⟨_latency, rfl⟩ | ⟨_latency, results, rfl⟩
      · rw [sendto_manager_toSockets]
        exact consistent
      · exact consistent
  | server_udp_read_timeout_cb fd =>
      rw [← Except.ok.inj stepped]
      exact server_udp_read_timeout_cb_consistent consistent fd
  | server_read_cb bev data now =>
      obtain ⟨ready, reached, outcome⟩ := server_read_cb_cases stepped
      have kept : ready.toSockets.Consistent := by
        rcases reached with rfl | ⟨_timing, results, rest, rfl⟩
        · exact consistent
        · exact consistent.buffer admitted rest
      rcases outcome with ⟨_latency, _long, rfl⟩ | ⟨_latency, rfl⟩
      · rw [sendto_manager_toSockets]
        exact kept
      · exact kept
  | server_event_cb bev which =>
      rw [← Except.ok.inj stepped]
      exact server_event_cb_consistent consistent admitted which

theorem step_toOptions {c d : DNSClient} {event : Event}
    (stepped : c.step get_query_rr_str event = .ok d) : d.toOptions = c.toOptions := by
  cases event with
  | send_query_udp msg ids now new_fd read_ev =>
      rcases send_query_udp_cases stepped with rfl | ⟨id, fd, ready, _packet, _drawn, socket, rfl⟩
      · rfl
      · rw [log_query_timing_toOptions]
        rcases udp_socket_cases socket with
          ⟨_unified, _fd, rfl⟩ | ⟨_each, _found, rfl⟩ | ⟨_each, _none, _fd, rfl⟩ <;> rfl
  | send_query_tcp msg ids now new_bev =>
      rcases send_query_tcp_cases stepped with rfl | ⟨id, results, bev, _packet, _drawn, connection⟩
      · rfl
      · rcases tcp_connection_cases connection with ⟨_found, rfl⟩ | ⟨_none, _bev, _live, rfl⟩
        · exact log_query_timing_toOptions _ _ _ _
        · exact log_query_timing_toOptions _ _ _ _
  | server_udp_write_cb fd msg now =>
      obtain ⟨_isOpen, results, rfl⟩ := server_udp_write_cb_cases stepped
      rfl
  | server_udp_read_cb fd data now =>
      rcases server_udp_read_cb_cases stepped with ⟨_latency, rfl⟩ | ⟨_latency, results, rfl⟩
      · exact sendto_manager_toOptions _ _ _
      · rfl
  | server_udp_read_timeout_cb fd =>
      rw [← Except.ok.inj stepped]
      unfold server_udp_read_timeout_cb
      simp only
      repeat' split
      all_goals rfl
  | server_read_cb bev data now =>
      obtain ⟨ready, reached, outcome⟩ := server_read_cb_cases stepped
      have kept : ready.toOptions = c.toOptions := by
        rcases reached with rfl | ⟨_timing, results, rest, rfl⟩ <;> rfl
      rcases outcome with ⟨_latency, _long, rfl⟩ | ⟨_latency, rfl⟩
      · rw [sendto_manager_toOptions]
        exact kept
      · exact kept
  | server_event_cb bev which =>
      rw [← Except.ok.inj stepped]
      unfold server_event_cb
      split <;> rfl

def Initial (c : DNSClient) : Prop :=
  ∃ options open_fds, c = { toOptions := options, open_fds := open_fds }

theorem Initial.consistent {c : DNSClient} (initial : c.Initial) : c.toSockets.Consistent := by
  obtain ⟨options, open_fds, rfl⟩ := initial
  exact
    { udp := Inverse.empty
      readEvents := fun fd => Iff.rfl
      tcp := Inverse.empty
      buffers := fun bev => Iff.rfl
      opened := by
        intro fd present
        exact absurd present (AList.notMem_empty fd)
      alive := by
        intro bev
        exact iff_of_false List.not_mem_nil (AList.notMem_empty bev) }

abbrev Run (get_query_rr_str : Bytes → Bytes) : DNSClient → List Event → DNSClient → Prop :=
  Runs.Run (step get_query_rr_str) admits

theorem run_consistent {c d : DNSClient} {events : List Event}
    (run : Run get_query_rr_str c events d) (consistent : c.toSockets.Consistent) :
    d.toSockets.Consistent :=
  Runs.Run.invariant (fun _ _ _ holds admitted stepped => step_consistent holds admitted stepped)
    run consistent

/-- In every state that is reached the tables are inverse to each other, so a
source has at most one UDP socket and one connection, and each of these
belongs to one source. -/
theorem connection_tables_consistent {start c : DNSClient} {events : List Event}
    (initial : start.Initial) (run : Run get_query_rr_str start events c) :
    (∀ ip fd, c.src2udpfd.lookup ip = some fd ↔ c.udpfd2src.lookup fd = some ip) ∧
    (∀ fd, fd ∈ c.udp_read_event ↔ fd ∈ c.udpfd2src) ∧
    (∀ ip bev, c.src2bev.lookup ip = some bev ↔ c.bev2src.lookup bev = some ip) ∧
    (∀ bev, bev ∈ c.server_msg_buffer ↔ bev ∈ c.bev2src) ∧
    (∀ ip fd other, c.src2udpfd.lookup ip = some fd → c.src2udpfd.lookup other = some fd →
      ip = other) ∧
    (∀ ip bev other, c.src2bev.lookup ip = some bev → c.src2bev.lookup other = some bev →
      ip = other) := by
  have consistent := run_consistent run initial.consistent
  refine ⟨consistent.udp, consistent.readEvents, consistent.tcp, consistent.buffers, ?_, ?_⟩
  · intro ip fd other one two
    have back := (consistent.udp ip fd).mp one
    exact Option.some.inj (back.symm.trans ((consistent.udp other fd).mp two))
  · intro ip bev other one two
    have back := (consistent.tcp ip bev).mp one
    exact Option.some.inj (back.symm.trans ((consistent.tcp other bev).mp two))

/-- What follows the id of a query for the address of `a.`: the flags, the counts and
the question. -/
def query_for_a : Bytes := [1, 0, 0, 1, 0, 0, 0, 0, 0, 0, 1, 97, 0, 0, 1, 0, 1]

/-- ldns on that query and on the response that has no records. -/
def asks_for_a (buf : Bytes) : Bytes :=
  if buf.drop 4 = query_for_a.drop 2 then Text.ascii "a.\tIN\tA\n" else []

def sample_query (src_ip : Bytes) : DNSMsg :=
  { src_ip? := some src_ip, raw? := some ([0, 0] ++ query_for_a) }

/-- Two sources send over UDP and over TCP; one of the sockets times out, one of the
connections ends. -/
theorem connection_tables_consistent_sent :
    ∃ c, Run asks_for_a {}
        [.send_query_udp (sample_query (Text.ascii "10.0.0.1")) [7] Timeval.zero 5 1000,
          .send_query_udp (sample_query (Text.ascii "10.0.0.2")) [8] Timeval.zero 6 1001,
          .send_query_udp (sample_query (Text.ascii "10.0.0.1")) [9] Timeval.zero 7 1002,
          .send_query_tcp (sample_query (Text.ascii "10.0.0.1")) [3] Timeval.zero 20,
          .send_query_tcp (sample_query (Text.ascii "10.0.0.2")) [4] Timeval.zero 21,
          .server_udp_read_timeout_cb 5,
          .server_event_cb 21 .connected,
          .server_event_cb 20 .closed] c ∧
      c.src2udpfd.lookup (Text.ascii "10.0.0.2") = some 6 ∧
      c.src2bev.lookup (Text.ascii "10.0.0.2") = some 21 ∧
      ∀ ip fd, c.src2udpfd.lookup ip = some fd ↔ c.udpfd2src.lookup fd = some ip := by
  have run : ∃ c, Run asks_for_a {}
      [.send_query_udp (sample_query (Text.ascii "10.0.0.1")) [7] Timeval.zero 5 1000,
        .send_query_udp (sample_query (Text.ascii "10.0.0.2")) [8] Timeval.zero 6 1001,
        .send_query_udp (sample_query (Text.ascii "10.0.0.1")) [9] Timeval.zero 7 1002,
        .send_query_tcp (sample_query (Text.ascii "10.0.0.1")) [3] Timeval.zero 20,
        .send_query_tcp (sample_query (Text.ascii "10.0.0.2")) [4] Timeval.zero 21,
        .server_udp_read_timeout_cb 5,
        .server_event_cb 21 .connected,
        .server_event_cb 20 .closed] c ∧
      c.src2udpfd.lookup (Text.ascii "10.0.0.2") = some 6 ∧
      c.src2bev.lookup (Text.ascii "10.0.0.2") = some 21 := by
    refine ⟨_, .next (by decide) rfl (.next (by decide) rfl (.next (by decide) rfl
      (.next (by decide) rfl (.next (by decide) rfl (.next (by decide) rfl
        (.next (by decide) rfl (.next (by decide) rfl (.done _)))))))), ?_, ?_⟩
    · decide
    · decide
  obtain ⟨c, reached, socket, connection⟩ := run
  exact ⟨c, reached, socket, connection, (connection_tables_consistent ⟨{}, [], rfl⟩ reached).1⟩

end DNSClient

end LDPlayer
