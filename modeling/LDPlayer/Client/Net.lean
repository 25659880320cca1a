/-
The worker's connections to the server: the sending of queries and the
callbacks of the server sockets in client.cc.

The record holds the members of DNSClient and beside them what the kernel and
libevent hold for it: open descriptors, live bufferevents, and the write events
that have been scheduled and have not run.  Results of system calls (a new
descriptor, a new bufferevent, random ids, the time) are arguments.  The text
that ldns makes of the question in a packet is a parameter.
-/
import LDPlayer.Client.Results

set_option autoImplicit false

namespace LDPlayer

open Text HashTable

structure Waiting where
  id : Nat
  rr : Bytes
  sent : Timeval
  deriving DecidableEq, Repr

/-- The six tables of connections, and the descriptors and bufferevents that
are really there. -/
structure Sockets where
  src2udpfd : HashTable Bytes Fd := ∅
  udpfd2src : HashTable Fd Bytes := ∅
  udp_read_event : HashTable Fd Ptr := ∅
  src2bev : HashTable Bytes Ptr := ∅
  bev2src : HashTable Ptr Bytes := ∅
  server_msg_buffer : HashTable Ptr Bytes := ∅
  open_fds : List Fd := []
  live_bevs : List Ptr := []

/-- The options of a worker; the unified socket exists before any query. -/
structure Options where
  socket_unify_udp : Bool := false
  unified_udp_fd : Fd := -1
  output_latency : Bool := false
  output_timing : Bool := false

/-- `waiting` is kept for the statements only; nothing reads it. -/
structure DNSClient extends Options, Sockets where
  num_udp_fd_max : Nat := 0
  query_table : HashTable Bytes Timeval := ∅
  write_events : List (Fd × DNSMsg) := []
  results : List ResultLine := []
  waiting : List Waiting := []

namespace DNSClient

section sending

variable (get_query_rr_str : Bytes → Bytes)

/-! ### Results for the manager -/

/-- The buffer must hold the header bits that `is_query` reads. -/
def record_message_time (data addr : Bytes) (now : Timeval) (c : DNSClient) :
    Except Fault DNSClient :=
  if data.length < 4 then .error .outOfBounds
  else
    .ok { c with
          results := c.results ++
            [.timing (is_query data) (get_id data) (get_query_rr_str data) now addr] }

def log_timing (data addr : Bytes) (now : Timeval) (c : DNSClient) : Except Fault DNSClient :=
  if c.output_timing then c.record_message_time get_query_rr_str data addr now else .ok c

def sendto_manager (buf : Bytes) (now : Timeval) (c : DNSClient) : DNSClient :=
  let id := get_id buf
  let rr := get_query_rr_str buf
  let key := message_key id rr
  let answered := { c with waiting := c.waiting.filter (fun q => message_key q.id q.rr ≠ key) }
  match c.query_table.lookup key with
  | none => answered
  | some qt =>
      { answered with
        query_table := c.query_table.erase key
        results := c.results ++ [.latency id rr (now.evutil_timersub qt)] }

/-! ### Sending -/

/-- The loop around `set_random_id`, over the ids that the generator returns. -/
def draw_id (rr : Bytes) (c : DNSClient) : List Nat → Option Nat
  | [] => none
  | id :: rest => if raw_key id rr ∈ c.query_table then draw_id rr c rest else some id

/-- The bytes that the sending copies; their number is kept in 16 bits. -/
def raw_copy (msg : DNSMsg) : Bytes := msg.raw.take (msg.raw.length % 2 ^ 16)

def log_query_timing (id : Nat) (rr : Bytes) (now : Timeval) (c : DNSClient) : DNSClient :=
  if rr.length ≠ 0 ∧ c.output_latency then
    { c with
      query_table := c.query_table.insert (message_key id rr) now
      waiting := c.waiting ++ [{ id := id, rr := rr, sent := now }] }
  else c

def udp_socket (ip : Bytes) (new_fd : Fd) (read_ev : Ptr) (c : DNSClient) :
    Except Fault (Fd × DNSClient) :=
  if c.socket_unify_udp then .ok (c.unified_udp_fd, c)
  else
    match c.src2udpfd.lookup ip with
    | some fd => if fd = -1 then .error (.assertion "fd != -1") else .ok (fd, c)
    | none =>
        if new_fd = -1 then .error (.exit "failed to create a new UDP socket")
        else
          let src2udpfd := c.src2udpfd.emplace ip new_fd
          .ok (new_fd,
            { c with
              open_fds := new_fd :: c.open_fds
              src2udpfd := src2udpfd
              udpfd2src := c.udpfd2src.emplace new_fd ip
              num_udp_fd_max := max c.num_udp_fd_max src2udpfd.size
              udp_read_event := c.udp_read_event.insert new_fd read_ev })

/-- Where `ids` ends before the loop around `set_random_id` does, the call is
still in it and has changed nothing. -/
def send_query_udp (msg : DNSMsg) (ids : List Nat) (now : Timeval) (new_fd : Fd) (read_ev : Ptr)
    (c : DNSClient) : Except Fault DNSClient :=
  let raw := raw_copy msg
  if raw.length = 0 then .ok c
  else if raw.length < 2 then .error .outOfBounds
  else
    let rr := get_query_rr_str raw
    match draw_id rr c ids with
    | none => .ok c
    | some id =>
        match c.udp_socket msg.src_ip new_fd read_ev with
        | .error fault => .error fault
        | .ok (fd, ready) =>
            let logged := ready.log_query_timing id rr now
            .ok { logged with
                  write_events := logged.write_events ++ [(fd, msg.set_raw (set_id id raw))] }

def tcp_connection (ip : Bytes) (new_bev : Ptr) (c : DNSClient) :
    Except Fault (Ptr × DNSClient) :=
  match c.src2bev.lookup ip with
  | some bev => if bev = NULL then .error (.assertion "bev != NULL") else .ok (bev, c)
  | none =>
      if new_bev = NULL then .error (.assertion "bev")
      else
        .ok (new_bev,
          { c with
            live_bevs := new_bev :: c.live_bevs
            src2bev := c.src2bev.emplace ip new_bev
            bev2src := c.bev2src.emplace new_bev ip
            server_msg_buffer := c.server_msg_buffer.emplace new_bev [] })

/-- Over TCP and TLS alike.  The length of the packet with its length field is
kept in 16 bits as well. -/
def send_query_tcp (msg : DNSMsg) (ids : List Nat) (now : Timeval) (new_bev : Ptr)
    (c : DNSClient) : Except Fault DNSClient :=
  let raw := raw_copy msg
  if raw.length = 0 then .ok c
  else if raw.length < 2 then .error .outOfBounds
  else
    let rr := get_query_rr_str raw
    match draw_id rr c ids with
    | none => .ok c
    | some id =>
        if raw.length + 2 ≥ 2 ^ 16 then .error .outOfBounds
        else
          let logged := c.log_query_timing id rr now
          match logged.log_timing get_query_rr_str (set_id id raw) msg.src_ip now with
          | .error fault => .error fault
          | .ok ready =>
              match ready.tcp_connection msg.src_ip new_bev with
              | .error fault => .error fault
              | .ok (_, connected) => .ok connected

/-! ### The callbacks of the sockets -/

def udp_source (fd : Fd) (c : DNSClient) : Bytes := (c.udpfd2src.lookup fd).getD (ascii "0")

def server_udp_write_cb (fd : Fd) (msg : DNSMsg) (now : Timeval) (c : DNSClient) :
    Except Fault DNSClient :=
  let freed := { c with write_events := c.write_events.erase (fd, msg) }
  match freed.log_timing get_query_rr_str msg.raw (c.udp_source fd) now with
  | .error fault => .error fault
  | .ok ready => if fd ∈ c.open_fds then .ok ready else .error (.exit "send fails")

def server_udp_read_timeout_cb (fd : Fd) (c : DNSClient) : DNSClient :=
  if fd < 0 then c
  else if fd ∉ c.udp_read_event then c
  else
    let closed :=
      { c with
        open_fds := c.open_fds.filter (fun other => other ≠ fd)
        udp_read_event := c.udp_read_event.erase fd }
    match closed.udpfd2src.lookup fd with
    | none => closed
    | some ip =>
        { closed with
          src2udpfd := closed.src2udpfd.erase ip
          udpfd2src := closed.udpfd2src.erase fd }

def server_udp_read_cb (fd : Fd) (data : Bytes) (now : Timeval) (c : DNSClient) :
    Except Fault DNSClient :=
  if c.output_latency then .ok (c.sendto_manager get_query_rr_str data now)
  else c.log_timing get_query_rr_str data (c.udp_source fd) now

/-- The loop of `server_read_cb` over the messages of a connection; `left` is
kept in 16 bits. -/
def server_messages (addr : Bytes) (now : Timeval) (buffer : Bytes) (c : DNSClient) :
    Except Fault (Bytes × DNSClient) :=
  if _more : buffer.length > 2 then
    let sz := get_id buffer
    if sz > (buffer.length - 2) % 2 ^ 16 then .ok (buffer, c)
    else
      match c.record_message_time get_query_rr_str ((buffer.drop 2).take sz) addr now with
      | .error fault => .error fault
      | .ok recorded => server_messages addr now (buffer.drop (sz + 2)) recorded
  else .ok (buffer, c)
termination_by buffer.length
decreasing_by
  rw [List.length_drop]
  omega

/-- The first part of `server_read_cb`, taken where timing is on. -/
def server_timing (bev : Ptr) (data : Bytes) (now : Timeval) (c : DNSClient) :
    Except Fault DNSClient :=
  let (before, server_msg_buffer) := c.server_msg_buffer.subscript [] bev
  let addr := (c.bev2src.lookup bev).getD (ascii "0")
  match server_messages get_query_rr_str addr now (before ++ data)
      { c with server_msg_buffer := server_msg_buffer } with
  | .error fault => .error fault
  | .ok (rest, recorded) =>
      .ok { recorded with server_msg_buffer := recorded.server_msg_buffer.insert bev rest }

def server_read_cb (bev : Ptr) (data : Bytes) (now : Timeval) (c : DNSClient) :
    Except Fault DNSClient :=
  match (if c.output_timing then c.server_timing get_query_rr_str bev data now else .ok c) with
  | .error fault => .error fault
  | .ok ready =>
      if c.output_latency then
        if data.length < 4 then .error .outOfBounds
        else .ok (ready.sendto_manager get_query_rr_str (data.drop 2) now)
      else .ok ready

inductive Which where
  | connected
  | timeout
  | closed
  deriving DecidableEq, Repr

def server_event_cb (bev : Ptr) (which : Which) (c : DNSClient) : DNSClient :=
  if which = .connected then c
  else
    let (ip, bev2src) := c.bev2src.subscript [] bev
    { c with
      src2bev := c.src2bev.erase ip
      bev2src := bev2src.erase bev
      server_msg_buffer := c.server_msg_buffer.erase bev
      live_bevs := c.live_bevs.filter (fun other => other ≠ bev) }

end sending

/-! ### What a call does -/

section calls

variable {get_query_rr_str : Bytes → Bytes} {c d : DNSClient}

theorem record_message_time_cases {data addr : Bytes} {now : Timeval}
    (ran : c.record_message_time get_query_rr_str data addr now = .ok d) :
    ∃ results, d = { c with results := results } := by
  unfold record_message_time at ran
  by_cases short : data.length < 4
  · rw [if_pos short] at ran
    cases ran
  · rw [if_neg short] at ran
    exact ⟨_, (Except.ok.inj ran).symm⟩

theorem log_timing_cases {data addr : Bytes} {now : Timeval}
    (ran : c.log_timing get_query_rr_str data addr now = .ok d) :
    ∃ results, d = { c with results := results } := by
  unfold log_timing at ran
  by_cases recorded : c.output_timing = true
  · rw [if_pos recorded] at ran
    exact record_message_time_cases ran
  · rw [if_neg recorded] at ran
    exact ⟨c.results, (Except.ok.inj ran).symm⟩

theorem udp_socket_cases {ip : Bytes} {new_fd fd : Fd} {read_ev : Ptr}
    (ran : c.udp_socket ip new_fd read_ev = .ok (fd, d)) :
    (c.socket_unify_udp = true ∧ fd = c.unified_udp_fd ∧ d = c) ∨
      (c.socket_unify_udp = false ∧ c.src2udpfd.lookup ip = some fd ∧ d = c) ∨
      (c.socket_unify_udp = false ∧ c.src2udpfd.lookup ip = none ∧ fd = new_fd ∧
        d = { c with
              open_fds := new_fd :: c.open_fds
              src2udpfd := c.src2udpfd.emplace ip new_fd
              udpfd2src := c.udpfd2src.emplace new_fd ip
              num_udp_fd_max := max c.num_udp_fd_max (c.src2udpfd.emplace ip new_fd).size
              udp_read_event := c.udp_read_event.insert new_fd read_ev }) := by
  unfold udp_socket at ran
  cases unified : c.socket_unify_udp with
  | true =>
      rw [unified, if_pos rfl] at ran
      obtain ⟨rfl, rfl⟩ := Prod.mk.inj (Except.ok.inj ran)
      exact Or.inl ⟨rfl, rfl, rfl⟩
  | false =>
      rw [unified, if_neg Bool.false_ne_true] at ran
      right
      cases found : c.src2udpfd.lookup ip with
      | some old =>
          simp only [found] at ran
          by_cases none_open : old = -1
          · rw [if_pos none_open] at ran
            cases ran
          · rw [if_neg none_open] at ran
            obtain ⟨rfl, rfl⟩ := Prod.mk.inj (Except.ok.inj ran)
            exact Or.inl ⟨rfl, rfl, rfl⟩
      | none =>
          simp only [found] at ran
          by_cases failed : new_fd = -1
          · rw [if_pos failed] at ran
            cases ran
          · rw [if_neg failed] at ran
            obtain ⟨rfl, rfl⟩ := Prod.mk.inj (Except.ok.inj ran)
            exact Or.inr ⟨rfl, rfl, rfl, rfl⟩

theorem udp_socket_new {ip : Bytes} {new_fd : Fd} (each : c.socket_unify_udp = false)
    (unmapped : c.src2udpfd.lookup ip = none) (valid : new_fd ≠ -1) (read_ev : Ptr) :
    c.udp_socket ip new_fd read_ev = .ok (new_fd,
      { c with
        open_fds := new_fd :: c.open_fds
        src2udpfd := c.src2udpfd.emplace ip new_fd
        udpfd2src := c.udpfd2src.emplace new_fd ip
        num_udp_fd_max := max c.num_udp_fd_max (c.src2udpfd.emplace ip new_fd).size
        udp_read_event := c.udp_read_event.insert new_fd read_ev }) := by
  unfold udp_socket
  rw [each, if_neg Bool.false_ne_true]
  simp only [unmapped, if_neg valid]

theorem send_query_udp_cases {msg : DNSMsg} {ids : List Nat} {now : Timeval} {new_fd : Fd}
    {read_ev : Ptr}
    (ran : c.send_query_udp get_query_rr_str msg ids now new_fd read_ev = .ok d) :
    d = c ∨ ∃ id fd ready, 2 ≤ (raw_copy msg).length ∧
      draw_id (get_query_rr_str (raw_copy msg)) c ids = some id ∧
      c.udp_socket msg.src_ip new_fd read_ev = .ok (fd, ready) ∧
      d = { ready.log_query_timing id (get_query_rr_str (raw_copy msg)) now with
            write_events :=
              (ready.log_query_timing id (get_query_rr_str (raw_copy msg)) now).write_events ++
                [(fd, msg.set_raw (set_id id (raw_copy msg)))] } := by
  unfold send_query_udp at ran
  by_cases empty : (raw_copy msg).length = 0
  · simp only [if_pos empty] at ran
    exact Or.inl (Except.ok.inj ran).symm
  · by_cases short : (raw_copy msg).length < 2
    · simp only [if_neg empty, if_pos short] at ran
      cases ran
    · simp only [if_neg empty, if_neg short] at ran
      cases drawn : draw_id (get_query_rr_str (raw_copy msg)) c ids with
      | none =>
          simp only [drawn] at ran
          exact Or.inl (Except.ok.inj ran).symm
      | some id =>
          simp only [drawn] at ran
          cases socket : c.udp_socket msg.src_ip new_fd read_ev with
          | error fault =>
              simp only [socket] at ran
              cases ran
          | ok result =>
              simp only [socket] at ran
              exact Or.inr ⟨id, result.1, result.2, Nat.not_lt.mp short, rfl, rfl,
                (Except.ok.inj ran).symm⟩

theorem tcp_connection_cases {ip : Bytes} {new_bev bev : Ptr}
    (ran : c.tcp_connection ip new_bev = .ok (bev, d)) :
    (c.src2bev.lookup ip = some bev ∧ d = c) ∨
      (c.src2bev.lookup ip = none ∧ bev = new_bev ∧ new_bev ≠ NULL ∧
        d = { c with
              live_bevs := new_bev :: c.live_bevs
              src2bev := c.src2bev.emplace ip new_bev
              bev2src := c.bev2src.emplace new_bev ip
              server_msg_buffer := c.server_msg_buffer.emplace new_bev [] }) := by
  unfold tcp_connection at ran
  cases found : c.src2bev.lookup ip with
  | some old =>
      simp only [found] at ran
      by_cases null : old = NULL
      · rw [if_pos null] at ran
        cases ran
      · rw [if_neg null] at ran
        obtain ⟨rfl, rfl⟩ := Prod.mk.inj (Except.ok.inj ran)
        exact Or.inl ⟨rfl, rfl⟩
  | none =>
      simp only [found] at ran
      by_cases null : new_bev = NULL
      · rw [if_pos null] at ran
        cases ran
      · rw [if_neg null] at ran
        obtain ⟨rfl, rfl⟩ := Prod.mk.inj (Except.ok.inj ran)
        exact Or.inr ⟨rfl, rfl, null, rfl⟩

theorem send_query_tcp_cases {msg : DNSMsg} {ids : List Nat} {now : Timeval} {new_bev : Ptr}
    (ran : c.send_query_tcp get_query_rr_str msg ids now new_bev = .ok d) :
    d = c ∨ ∃ id results bev, 2 ≤ (raw_copy msg).length ∧
      draw_id (get_query_rr_str (raw_copy msg)) c ids = some id ∧
      tcp_connection msg.src_ip new_bev
        { c.log_query_timing id (get_query_rr_str (raw_copy msg)) now with results := results } =
        .ok (bev, d) := by
  unfold send_query_tcp at ran
  by_cases empty : (raw_copy msg).length = 0
  · simp only [if_pos empty] at ran
    exact Or.inl (Except.ok.inj ran).symm
  · by_cases short : (raw_copy msg).length < 2
    · simp only [if_neg empty, if_pos short] at ran
      cases ran
    · simp only [if_neg empty, if_neg short] at ran
      cases drawn : draw_id (get_query_rr_str (raw_copy msg)) c ids with
      | none =>
          simp only [drawn] at ran
          exact Or.inl (Except.ok.inj ran).symm
      | some id =>
          simp only [drawn] at ran
          by_cases long : (raw_copy msg).length + 2 ≥ 2 ^ 16
          · rw [if_pos long] at ran
            cases ran
          · rw [if_neg long] at ran
            split at ran
            · cases ran
            · rename_i ready timed
              obtain ⟨results, rfl⟩ := log_timing_cases timed
              split at ran
              · cases ran
              · rename_i bev connected connection
                rw [← Except.ok.inj ran]
                exact Or.inr ⟨id, results, bev, Nat.not_lt.mp short, rfl, connection⟩

theorem server_udp_write_cb_cases {fd : Fd} {msg : DNSMsg} {now : Timeval}
    (ran : c.server_udp_write_cb get_query_rr_str fd msg now = .ok d) :
    fd ∈ c.open_fds ∧ ∃ results,
      d = { c with write_events := c.write_events.erase (fd, msg), results := results } := by
  unfold server_udp_write_cb at ran
  cases timed : log_timing get_query_rr_str msg.raw (c.udp_source fd) now
      { c with write_events := c.write_events.erase (fd, msg) } with
  | error fault =>
      simp only [timed] at ran
      cases ran
  | ok ready =>
      simp only [timed] at ran
      obtain ⟨results, rfl⟩ := log_timing_cases timed
      by_cases isOpen : fd ∈ c.open_fds
      · rw [if_pos isOpen] at ran
        exact ⟨isOpen, results, (Except.ok.inj ran).symm⟩
      · rw [if_neg isOpen] at ran
        cases ran

theorem server_udp_read_cb_cases {fd : Fd} {data : Bytes} {now : Timeval}
    (ran : c.server_udp_read_cb get_query_rr_str fd data now = .ok d) :
    (c.output_latency = true ∧ d = c.sendto_manager get_query_rr_str data now) ∨
      (c.output_latency = false ∧ ∃ results, d = { c with results := results }) := by
  unfold server_udp_read_cb at ran
  by_cases latency : c.output_latency = true
  · rw [if_pos latency] at ran
    exact Or.inl ⟨latency, (Except.ok.inj ran).symm⟩
  · rw [if_neg latency] at ran
    exact Or.inr ⟨Bool.eq_false_iff.mpr latency, log_timing_cases ran⟩

private theorem server_messages_cases (addr : Bytes) (now : Timeval) (buffer : Bytes) :
    ∀ {c d : DNSClient} {rest : Bytes},
      server_messages get_query_rr_str addr now buffer c = .ok (rest, d) →
      ∃ results, d = { c with results := results } := by
  intro c d rest ran
  induction buffer, c using server_messages.induct get_query_rr_str addr now with
  | case1 buffer c more sz stops =>
      rw [server_messages, dif_pos more] at ran
      simp only [sz] at stops
      simp only [if_pos stops] at ran
      exact ⟨c.results, (Prod.mk.inj (Except.ok.inj ran)).2.symm⟩
  | case2 buffer c more sz enough fault recorded =>
      rw [server_messages, dif_pos more] at ran
      simp only [sz] at enough recorded
      simp only [if_neg enough, recorded] at ran
      cases ran
  | case3 buffer c more sz enough next recorded ih =>
      rw [server_messages, dif_pos more] at ran
      simp only [sz] at enough recorded ih
      simp only [if_neg enough, recorded] at ran
      obtain ⟨results, rfl⟩ := ih ran
      obtain ⟨_, rfl⟩ := record_message_time_cases recorded
      exact ⟨results, rfl⟩
  | case4 buffer c ended =>
      rw [server_messages, dif_neg ended] at ran
      exact ⟨c.results, (Prod.mk.inj (Except.ok.inj ran)).2.symm⟩

theorem server_timing_cases {bev : Ptr} {data : Bytes} {now : Timeval}
    (ran : c.server_timing get_query_rr_str bev data now = .ok d) :
    ∃ results rest,
      d = { c with
            results := results
            server_msg_buffer := c.server_msg_buffer.insert bev rest } := by
  unfold server_timing at ran
  simp only at ran
  split at ran
  · cases ran
  · rename_i rest recorded messages
    obtain ⟨results, rfl⟩ := server_messages_cases _ _ _ messages
    rw [← Except.ok.inj ran]
    refine ⟨results, rest, ?_⟩
    rw [← subscript_insert c.server_msg_buffer [] rest bev]

/-- A read on a connection reaches `sendto_manager` with its tables as they
were, but for what is buffered for the connection. -/
theorem server_read_cb_cases {bev : Ptr} {data : Bytes} {now : Timeval}
    (ran : c.server_read_cb get_query_rr_str bev data now = .ok d) :
    ∃ ready, (ready = c ∨ c.output_timing = true ∧ ∃ results rest,
        ready = { c with
                  results := results
                  server_msg_buffer := c.server_msg_buffer.insert bev rest }) ∧
      ((c.output_latency = true ∧ 4 ≤ data.length ∧
          d = ready.sendto_manager get_query_rr_str (data.drop 2) now) ∨
        (c.output_latency = false ∧ d = ready)) := by
  unfold server_read_cb at ran
  split at ran
  · cases ran
  · rename_i ready timed
    have reached : ready = c ∨ c.output_timing = true ∧ ∃ results rest,
        ready = { c with
                  results := results
                  server_msg_buffer := c.server_msg_buffer.insert bev rest } := by
      by_cases timing : c.output_timing = true
      · rw [if_pos timing] at timed
        exact Or.inr ⟨timing, server_timing_cases timed⟩
      · rw [if_neg timing] at timed
        exact Or.inl (Except.ok.inj timed).symm
    refine ⟨ready, reached, ?_⟩
    by_cases latency : c.output_latency = true
    · rw [if_pos latency] at ran
      by_cases short : data.length < 4
      · rw [if_pos short] at ran
        cases ran
      · rw [if_neg short] at ran
        exact Or.inl ⟨latency, Nat.not_lt.mp short, (Except.ok.inj ran).symm⟩
    · rw [if_neg latency] at ran
      exact Or.inr ⟨Bool.eq_false_iff.mpr latency, (Except.ok.inj ran).symm⟩

end calls

/-! ### The worker as a whole -/

inductive Event where
  | send_query_udp (msg : DNSMsg) (ids : List Nat) (now : Timeval) (new_fd : Fd) (read_ev : Ptr)
  | send_query_tcp (msg : DNSMsg) (ids : List Nat) (now : Timeval) (new_bev : Ptr)
  | server_udp_write_cb (fd : Fd) (msg : DNSMsg) (now : Timeval)
  | server_udp_read_cb (fd : Fd) (data : Bytes) (now : Timeval)
  | server_udp_read_timeout_cb (fd : Fd)
  | server_read_cb (bev : Ptr) (data : Bytes) (now : Timeval)
  | server_event_cb (bev : Ptr) (which : Which)
  deriving DecidableEq, Repr

def step (get_query_rr_str : Bytes → Bytes) (c : DNSClient) (event : Event) :
    Except Fault DNSClient :=
  match event with
  | .send_query_udp msg ids now new_fd read_ev =>
      c.send_query_udp get_query_rr_str msg ids now new_fd read_ev
  | .send_query_tcp msg ids now new_bev => c.send_query_tcp get_query_rr_str msg ids now new_bev
  | .server_udp_write_cb fd msg now => c.server_udp_write_cb get_query_rr_str fd msg now
  | .server_udp_read_cb fd data now => c.server_udp_read_cb get_query_rr_str fd data now
  | .server_udp_read_timeout_cb fd => .ok (c.server_udp_read_timeout_cb fd)
  | .server_read_cb bev data now => c.server_read_cb get_query_rr_str bev data now
  | .server_event_cb bev which => .ok (c.server_event_cb bev which)

/-- New descriptors and bufferevents differ from those in use; callbacks come
from scheduled events and from live bufferevents. -/
def admits (c : DNSClient) (event : Event) : Prop :=
  match event with
  | .send_query_udp _ _ _ new_fd _ => new_fd ∉ c.open_fds
  | .send_query_tcp _ _ _ new_bev => new_bev ∉ c.live_bevs
  | .server_udp_write_cb fd msg _ => (fd, msg) ∈ c.write_events
  | .server_udp_read_cb _ _ _ => True
  | .server_udp_read_timeout_cb _ => True
  | .server_read_cb bev _ _ => bev ∈ c.live_bevs
  | .server_event_cb bev _ => bev ∈ c.live_bevs

instance (c : DNSClient) (event : Event) : Decidable (c.admits event) :=
  match event with
  | .send_query_udp _ _ _ new_fd _ => inferInstanceAs (Decidable (new_fd ∉ c.open_fds))
  | .send_query_tcp _ _ _ new_bev => inferInstanceAs (Decidable (new_bev ∉ c.live_bevs))
  | .server_udp_write_cb fd msg _ => inferInstanceAs (Decidable ((fd, msg) ∈ c.write_events))
  | .server_udp_read_cb _ _ _ => inferInstanceAs (Decidable True)
  | .server_udp_read_timeout_cb _ => inferInstanceAs (Decidable True)
  | .server_read_cb bev _ _ => inferInstanceAs (Decidable (bev ∈ c.live_bevs))
  | .server_event_cb bev _ => inferInstanceAs (Decidable (bev ∈ c.live_bevs))

end DNSClient

end LDPlayer
