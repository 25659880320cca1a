/-
One call of send_query: the choice of the transport, and what the call leaves
behind it, bytes on a connection or a datagram that waits for its socket.
-/
import LDPlayer.Client.Wire
import LDPlayer.Client.Latency

set_option autoImplicit false

namespace LDPlayer

open LengthPrefix HashTable Text

def conn_set : List Bytes := [ascii "udp", ascii "tcp", ascii "tls", ascii "adaptive"]

/-- What the kernel, libevent and the generators give to the calls of `send_query`,
by their number and by what is in use. -/
structure Kernel where
  set_random_id : Nat → List Nat
  evutil_gettimeofday : Nat → Timeval
  socket : Nat → List Fd → Fd
  event_new : Nat → Ptr
  bufferevent_new : Nat → List Ptr → Ptr
  set_random_id_some : ∀ call, set_random_id call ≠ []
  socket_closed : ∀ call open_fds, socket call open_fds ∉ open_fds
  bufferevent_free : ∀ call live_bevs, bufferevent_new call live_bevs ∉ live_bevs

theorem le_foldr_max {α : Type} [LinearOrder α] (bottom : α) {values : List α} {value : α}
    (member : value ∈ values) : value ≤ values.foldr max bottom := by
  induction values with
  | nil => cases member
  | cons first rest ih =>
      rcases List.mem_cons.mp member with rfl | later
      · exact le_max_left _ _
      · exact (ih later).trans (le_max_right _ _)

/-- A kernel that gives out the numbers behind those in use. -/
def counting_kernel : Kernel where
  set_random_id call := [call]
  evutil_gettimeofday _ := Timeval.zero
  socket _ open_fds := open_fds.foldr max 0 + 1
  event_new call := call + 1
  bufferevent_new _ live_bevs := live_bevs.foldr max 0 + 1
  set_random_id_some _ := List.cons_ne_nil _ _
  socket_closed _ _ member := absurd (le_foldr_max 0 member) (not_le.mpr (lt_add_one _))
  bufferevent_free _ _ member := absurd (le_foldr_max 0 member) (not_le.mpr (lt_add_one _))

/-- What a call puts out: a write on a connection, or a write event for a datagram. -/
inductive Output where
  | bufferevent_write (bev : Ptr) (bytes : Bytes)
  | event_add (fd : Fd) (msg : DNSMsg)
  deriving DecidableEq, Repr

def Output.scheduled : Output → List (Fd × DNSMsg)
  | .bufferevent_write _ _ => []
  | .event_add fd msg => [(fd, msg)]

namespace DNSClient

section model

variable (get_query_rr_str : Bytes → Bytes)

def send_query_udp_output (msg : DNSMsg) (ids : List Nat) (now : Timeval) (new_fd : Fd)
    (read_ev : Ptr) (c : DNSClient) : Except Fault (Option Output × DNSClient) :=
  let raw := raw_copy msg
  if raw.length = 0 then .ok (none, c)
  else if raw.length < 2 then .error .outOfBounds
  else
    let rr := get_query_rr_str raw
    match draw_id rr c ids with
    | none => .ok (none, c)
    | some id =>
        match c.udp_socket msg.src_ip new_fd read_ev with
        | .error fault => .error fault
        | .ok (fd, ready) =>
            let logged := ready.log_query_timing id rr now
            let msg := msg.set_raw (set_id id raw)
            .ok (some (.event_add fd msg),
              { logged with write_events := logged.write_events ++ [(fd, msg)] })

def send_query_tcp_output (msg : DNSMsg) (ids : List Nat) (now : Timeval) (new_bev : Ptr)
    (c : DNSClient) : Except Fault (Option Output × DNSClient) :=
  let raw := raw_copy msg
  if raw.length = 0 then .ok (none, c)
  else if raw.length < 2 then .error .outOfBounds
  else
    match draw_id (get_query_rr_str raw) c ids with
    | none => .ok (none, c)
    | some id =>
        match c.tcp_send get_query_rr_str msg id now new_bev with
        | .error fault => .error fault
        | .ok (write, sent) => .ok (some (.bufferevent_write write.1 write.2), sent)

def use_tcp (conn_type : Bytes) (msg : DNSMsg) : Bool :=
  conn_type = ascii "tcp" || (conn_type = ascii "adaptive" && msg.tcp)

def use_udp (conn_type : Bytes) (msg : DNSMsg) : Bool :=
  conn_type = ascii "udp" || (conn_type = ascii "adaptive" && !msg.tcp)

def use_tls (conn_type : Bytes) : Bool := conn_type = ascii "tls"

/-- The call with this number; TLS goes the way of TCP. -/
def send_query (kernel : Kernel) (conn_type : Bytes) (call : Nat) (msg : DNSMsg)
    (c : DNSClient) : Except Fault (Option Output × DNSClient) :=
  let ids := kernel.set_random_id call
  let now := kernel.evutil_gettimeofday call
  let new_bev := kernel.bufferevent_new call c.live_bevs
  if use_tls conn_type then c.send_query_tcp_output get_query_rr_str msg ids now new_bev
  else if use_tcp conn_type msg then
    c.send_query_tcp_output get_query_rr_str msg ids now new_bev
  else if use_udp conn_type msg then
    c.send_query_udp_output get_query_rr_str msg ids now (kernel.socket call c.open_fds)
      (kernel.event_new call)
  else .ok (none, c)

/-- Exactly one of the three for an accepted connection type. -/
theorem one_transport {conn_type : Bytes} (accepted : conn_type ∈ conn_set) (msg : DNSMsg) :
    (use_tls conn_type || use_tcp conn_type msg) = !use_udp conn_type msg := by
  have each : ∀ type ∈ conn_set, ∀ tcp,
      (use_tls type || (type = ascii "tcp" || (type = ascii "adaptive" && tcp))) =
        !(type = ascii "udp" || (type = ascii "adaptive" && !tcp)) := by
    decide +kernel
  exact each conn_type accepted msg.tcp

/-! ### The calls and their events -/

variable {get_query_rr_str} {c d : DNSClient} {msg : DNSMsg} {ids : List Nat} {now : Timeval}

private theorem send_query_udp_output_client (new_fd : Fd) (read_ev : Ptr) :
    (c.send_query_udp_output get_query_rr_str msg ids now new_fd read_ev).map Prod.snd =
      c.send_query_udp get_query_rr_str msg ids now new_fd read_ev := by
  unfold send_query_udp_output send_query_udp
  by_cases empty : (raw_copy msg).length = 0
  · simp only [if_pos empty, Except.map]
  · by_cases short : (raw_copy msg).length < 2
    · simp only [if_neg empty, if_pos short, Except.map]
    · simp only [if_neg empty, if_neg short]
      cases draw_id (get_query_rr_str (raw_copy msg)) c ids with
      | none => rfl
      | some id => cases c.udp_socket msg.src_ip new_fd read_ev <;> rfl

private theorem send_query_tcp_output_client (new_bev : Ptr) :
    (c.send_query_tcp_output get_query_rr_str msg ids now new_bev).map Prod.snd =
      c.send_query_tcp get_query_rr_str msg ids now new_bev := by
  by_cases empty : (raw_copy msg).length = 0
  · unfold send_query_tcp_output send_query_tcp
    simp only [if_pos empty, Except.map]
  · by_cases short : (raw_copy msg).length < 2
    · unfold send_query_tcp_output send_query_tcp
      simp only [if_neg empty, if_pos short, Except.map]
    · cases drawn : draw_id (get_query_rr_str (raw_copy msg)) c ids with
      | none =>
          unfold send_query_tcp_output send_query_tcp
          simp only [if_neg empty, if_neg short, drawn, Except.map]
      | some id =>
          rw [send_query_tcp_eq get_query_rr_str (Nat.not_lt.mp short) drawn]
          unfold send_query_tcp_output
          simp only [if_neg empty, if_neg short, drawn]
          cases c.tcp_send get_query_rr_str msg id now new_bev <;> rfl

end model

/-! ### What a call does -/

section calls

variable {get_query_rr_str : Bytes → Bytes} {c d : DNSClient}

/-- The source that a connection or a socket belongs to. -/
def owner (d : DNSClient) : Output → Option Bytes
  | .bufferevent_write bev _ => d.bev2src.lookup bev
  | .event_add fd _ => d.udpfd2src.lookup fd

/-- The bytes of the query with an id go out by the transport of the connection
type, on the connection or socket of the source; `owned` is the owner. -/
def PutsOut (options : Options) (conn_type : Bytes) (msg : DNSMsg) (owned : Option Bytes) :
    Output → Prop
  | .bufferevent_write _ bytes =>
      (use_tls conn_type || use_tcp conn_type msg) = true ∧ owned = some msg.src_ip ∧
        ∃ id, bytes = LengthPrefix.frame tcpWidth (set_id id (raw_copy msg))
  | .event_add fd sent =>
      use_udp conn_type msg = true ∧
        (if options.socket_unify_udp then fd = options.unified_udp_fd
          else owned = some msg.src_ip) ∧
        ∃ id, sent = msg.set_raw (set_id id (raw_copy msg))

theorem raw_copy_lt (msg : DNSMsg) : (raw_copy msg).length < 2 ^ 16 := by
  unfold raw_copy
  rw [List.length_take]
  exact Nat.lt_of_le_of_lt (Nat.min_le_left _ _) (Nat.mod_lt _ (by decide))

theorem draw_id_eq_none_iff {rr : Bytes} {ids : List Nat} :
    draw_id rr c ids = none ↔ ∀ id ∈ ids, raw_key id rr ∈ c.query_table := by
  induction ids with
  | nil => exact iff_of_true rfl (List.forall_mem_nil _)
  | cons id rest ih =>
      rw [draw_id, List.forall_mem_cons]
      by_cases taken : raw_key id rr ∈ c.query_table
      · rw [if_pos taken, ih, and_iff_right taken]
      · rw [if_neg taken]
        exact iff_of_false (Option.some_ne_none id) (fun both => taken both.1)

def Remembers (c : DNSClient) : Prop := c.output_latency = false → c.query_table = ∅

theorem Remembers.not_taken (remembers : c.Remembers) (plain : c.output_latency = false)
    {rr : Bytes} {ids : List Nat} (some_id : ids ≠ []) : draw_id rr c ids ≠ none := by
  intro exhausted
  obtain ⟨id, rest, rfl⟩ := List.exists_cons_of_ne_nil some_id
  have taken := draw_id_eq_none_iff.mp exhausted id List.mem_cons_self
  rw [remembers plain] at taken
  exact AList.notMem_empty _ taken

theorem Initial.remembers (initial : c.Initial) : c.Remembers := by
  obtain ⟨_options, _open_fds, rfl⟩ := initial
  exact fun _plain => rfl

private theorem log_query_timing_plain (plain : c.output_latency = false) (id : Nat) (rr : Bytes)
    (now : Timeval) : c.log_query_timing id rr now = c := by
  unfold log_query_timing
  rw [if_neg]
  intro logged
  rw [plain] at logged
  exact Bool.false_ne_true logged.2

private theorem sendto_manager_none {buf : Bytes} {now : Timeval} (empty : c.query_table = ∅) :
    (c.sendto_manager get_query_rr_str buf now).query_table = ∅ := by
  have absent : c.query_table.lookup (message_key (get_id buf) (get_query_rr_str buf)) = none := by
    rw [empty]
    rfl
  unfold sendto_manager
  simp only [absent]
  exact empty

theorem step_remembers {event : Event} (remembers : c.Remembers)
    (stepped : c.step get_query_rr_str event = .ok d) : d.Remembers := by
  intro plain_after
  have plain : c.output_latency = false :=
    (congrArg Options.output_latency (step_toOptions stepped)).symm.trans plain_after
  have empty := remembers plain
  cases event with
  | send_query_udp msg ids now new_fd read_ev =>
      rcases send_query_udp_cases stepped with rfl | ⟨id, fd, ready, _packet, _drawn, socket, rfl⟩
      · exact empty
      · have kept : ready.query_table = ∅ ∧ ready.output_latency = false := by
          rcases udp_socket_cases socket with
            ⟨_unified, _fd, rfl⟩ | ⟨_each, _found, rfl⟩ | ⟨_each, _none, _fd, rfl⟩
          · exact ⟨empty, plain⟩
          · exact ⟨empty, plain⟩
          · exact ⟨empty, plain⟩
        rw [log_query_timing_plain kept.2]
        exact kept.1
  | send_query_tcp msg ids now new_bev =>
      rcases send_query_tcp_cases stepped with rfl | ⟨id, results, bev, _packet, _drawn, connection⟩
      · exact empty
      · rw [log_query_timing_plain plain] at connection
        rcases tcp_connection_cases connection with ⟨_found, rfl⟩ | ⟨_none, _bev, _live, rfl⟩
        · exact empty
        · exact empty
  | server_udp_write_cb fd msg now =>
      obtain ⟨_isOpen, results, rfl⟩ := server_udp_write_cb_cases stepped
      exact empty
  | server_udp_read_cb fd data now =>
      rcases server_udp_read_cb_cases stepped with ⟨_latency, rfl⟩ | ⟨_latency, results, rfl⟩
      · exact sendto_manager_none empty
      · exact empty
  | server_udp_read_timeout_cb fd =>
      rw [← Except.ok.inj stepped, (server_udp_read_timeout_cb_table fd c).1]
      exact empty
  | server_read_cb bev data now =>
      obtain ⟨ready, reached, outcome⟩ := server_read_cb_cases stepped
      have kept : ready.query_table = ∅ := by
        rcases reached with rfl | ⟨_timing, results, rest, rfl⟩
        · exact empty
        · exact empty
      rcases outcome with ⟨_latency, _long, rfl⟩ | ⟨_latency, rfl⟩
      · exact sendto_manager_none kept
      · exact kept
  | server_event_cb bev which =>
      rw [← Except.ok.inj stepped, (server_event_cb_table bev which c).1]
      exact empty

private theorem send_query_udp_output_cases {msg : DNSMsg} {ids : List Nat} {now : Timeval}
    {new_fd : Fd}
    {read_ev : Ptr} {output : Option Output}
    (ran : c.send_query_udp_output get_query_rr_str msg ids now new_fd read_ev =
      .ok (output, d)) :
    c.step get_query_rr_str (.send_query_udp msg ids now new_fd read_ev) = .ok d ∧
      (output = none → d = c ∧ (raw_copy msg = [] ∨
        draw_id (get_query_rr_str (raw_copy msg)) c ids = none)) ∧
      ∀ put, output = some put → ∃ fd id ready, c.udp_socket msg.src_ip new_fd read_ev =
          .ok (fd, ready) ∧ put = .event_add fd (msg.set_raw (set_id id (raw_copy msg))) ∧
        d.toSockets = ready.toSockets ∧
        d.write_events = c.write_events ++ [(fd, msg.set_raw (set_id id (raw_copy msg)))] := by
  have client : (c.send_query_udp_output get_query_rr_str msg ids now new_fd read_ev).map Prod.snd =
      c.send_query_udp get_query_rr_str msg ids now new_fd read_ev :=
    send_query_udp_output_client new_fd read_ev
  rw [ran] at client
  refine ⟨client.symm, ?_⟩
  unfold send_query_udp_output at ran
  by_cases empty : (raw_copy msg).length = 0
  · simp only [if_pos empty] at ran
    obtain ⟨rfl, rfl⟩ := Prod.mk.inj (Except.ok.inj ran)
    exact ⟨fun _none => ⟨rfl, Or.inl (List.length_eq_zero_iff.mp empty)⟩,
      fun put impossible => by cases impossible⟩
  · by_cases short : (raw_copy msg).length < 2
    · simp only [if_neg empty, if_pos short] at ran
      cases ran
    · simp only [if_neg empty, if_neg short] at ran
      cases drawn : draw_id (get_query_rr_str (raw_copy msg)) c ids with
      | none =>
          simp only [drawn] at ran
          obtain ⟨rfl, rfl⟩ := Prod.mk.inj (Except.ok.inj ran)
          exact ⟨fun _none => ⟨rfl, Or.inr rfl⟩, fun put impossible => by cases impossible⟩
      | some id =>
          simp only [drawn] at ran
          cases socket : c.udp_socket msg.src_ip new_fd read_ev with
          | error fault =>
              simp only [socket] at ran
              cases ran
          | ok result =>
              simp only [socket] at ran
              obtain ⟨rfl, rfl⟩ := Prod.mk.inj (Except.ok.inj ran)
              have kept : result.2.write_events = c.write_events := by
                rcases udp_socket_cases socket with
                  ⟨_unified, _fd, same⟩ | ⟨_each, _found, same⟩ | ⟨_each, _none, _fd, same⟩ <;>
                rw [same]
              refine ⟨fun impossible => by (cases impossible), ?_⟩
              intro put same
              obtain rfl := Option.some.inj same
              refine ⟨result.1, id, result.2, rfl, rfl, ?_, ?_⟩
              · exact log_query_timing_toSockets _ _ _ _
              · rw [← kept]
                exact congrArg (· ++ _) (log_query_timing_write_events _ _ _ _)

/-- The bytes of a connection are a frame of the query with its id. -/
theorem tcp_send_cases_of_ok {msg : DNSMsg} {id : Nat} {now : Timeval} {new_bev : Ptr}
    {write : Ptr × Bytes} (header : 2 ≤ (raw_copy msg).length)
    (ran : c.tcp_send get_query_rr_str msg id now new_bev = .ok (write, d)) :
    write.2 = LengthPrefix.frame tcpWidth (set_id id (raw_copy msg)) ∧
      (raw_copy msg).length ≤ 65533 ∧ ∃ results,
        tcp_connection msg.src_ip new_bev
          { c.log_query_timing id (get_query_rr_str (raw_copy msg)) now with results := results } =
            .ok (write.1, d) := by
  have small : (set_id id (raw_copy msg)).length < 2 ^ 16 := by
    rw [set_id_length id header]
    exact raw_copy_lt msg
  unfold tcp_send at ran
  simp only [tcp_raw_eq small, set_id_length id header] at ran
  by_cases fits : (raw_copy msg).length ≤ 65533
  · simp only [if_pos fits] at ran
    split at ran
    · cases ran
    · rename_i ready logged
      obtain ⟨results, rfl⟩ := log_timing_cases logged
      split at ran
      · cases ran
      · rename_i bev connected connection
        obtain ⟨rfl, rfl⟩ := Prod.mk.inj (Except.ok.inj ran)
        exact ⟨rfl, fits, results, connection⟩
  · simp only [if_neg fits] at ran
    cases ran

private theorem tcp_connection_owner {ip : Bytes} {new_bev bev : Ptr}
    (consistent : c.toSockets.Consistent) (free : new_bev ∉ c.live_bevs)
    (ran : c.tcp_connection ip new_bev = .ok (bev, d)) : d.bev2src.lookup bev = some ip := by
  rcases tcp_connection_cases ran with ⟨found, rfl⟩ | ⟨_unmapped, rfl, _live, rfl⟩
  · exact (consistent.tcp ip bev).mp found
  · have fresh : bev ∉ c.bev2src := fun present => free ((consistent.alive bev).mpr present)
    simp only [emplace_of_absent fresh]
    exact AList.lookup_insert _

private theorem send_query_tcp_output_cases {msg : DNSMsg} {ids : List Nat} {now : Timeval}
    {new_bev : Ptr} {output : Option Output}
    (ran : c.send_query_tcp_output get_query_rr_str msg ids now new_bev = .ok (output, d)) :
    c.step get_query_rr_str (.send_query_tcp msg ids now new_bev) = .ok d ∧
      (output = none → d = c ∧ (raw_copy msg = [] ∨
        draw_id (get_query_rr_str (raw_copy msg)) c ids = none)) ∧
      ∀ put, output = some put → ∃ bev id results, put = .bufferevent_write bev
          (LengthPrefix.frame tcpWidth (set_id id (raw_copy msg))) ∧
        2 ≤ (raw_copy msg).length ∧
        tcp_connection msg.src_ip new_bev
          { c.log_query_timing id (get_query_rr_str (raw_copy msg)) now with results := results } =
            .ok (bev, d) := by
  have client : (c.send_query_tcp_output get_query_rr_str msg ids now new_bev).map Prod.snd =
      c.send_query_tcp get_query_rr_str msg ids now new_bev :=
    send_query_tcp_output_client new_bev
  rw [ran] at client
  refine ⟨client.symm, ?_⟩
  unfold send_query_tcp_output at ran
  by_cases empty : (raw_copy msg).length = 0
  · simp only [if_pos empty] at ran
    obtain ⟨rfl, rfl⟩ := Prod.mk.inj (Except.ok.inj ran)
    exact ⟨fun _none => ⟨rfl, Or.inl (List.length_eq_zero_iff.mp empty)⟩,
      fun put impossible => by cases impossible⟩
  · by_cases short : (raw_copy msg).length < 2
    · simp only [if_neg empty, if_pos short] at ran
      cases ran
    · simp only [if_neg empty, if_neg short] at ran
      cases drawn : draw_id (get_query_rr_str (raw_copy msg)) c ids with
      | none =>
          simp only [drawn] at ran
          obtain ⟨rfl, rfl⟩ := Prod.mk.inj (Except.ok.inj ran)
          exact ⟨fun _none => ⟨rfl, Or.inr rfl⟩, fun put impossible => by cases impossible⟩
      | some id =>
          simp only [drawn] at ran
          cases sent : c.tcp_send get_query_rr_str msg id now new_bev with
          | error fault =>
              simp only [sent] at ran
              cases ran
          | ok result =>
              simp only [sent] at ran
              obtain ⟨rfl, rfl⟩ := Prod.mk.inj (Except.ok.inj ran)
              have header := Nat.not_lt.mp short
              obtain ⟨bytes, _fits, results, connection⟩ := tcp_send_cases_of_ok header sent
              refine ⟨fun impossible => by (cases impossible), ?_⟩
              intro put same
              obtain rfl := Option.some.inj same
              exact ⟨result.1.1, id, results, by rw [bytes], header, connection⟩

private theorem udp_socket_owner {ip : Bytes} {new_fd fd : Fd} {read_ev : Ptr}
    (consistent : c.toSockets.Consistent) (closed : new_fd ∉ c.open_fds)
    (ran : c.udp_socket ip new_fd read_ev = .ok (fd, d)) :
    if c.socket_unify_udp then fd = c.unified_udp_fd else d.udpfd2src.lookup fd = some ip := by
  rcases udp_socket_cases ran with
    ⟨unified, same, _d⟩ | ⟨each, found, rfl⟩ | ⟨each, _unmapped, rfl, rfl⟩
  · rw [if_pos unified]
    exact same
  · rw [each, if_neg Bool.false_ne_true]
    exact (consistent.udp ip fd).mp found
  · rw [each, if_neg Bool.false_ne_true]
    have fresh : fd ∉ c.udpfd2src := fun present => closed (consistent.opened fd present)
    simp only [emplace_of_absent fresh]
    exact AList.lookup_insert _

def Event.sends : Event → Bool
  | .send_query_udp _ _ _ _ _ => true
  | .send_query_tcp _ _ _ _ => true
  | _ => false

/-- A call of `send_query` that has returned or is still drawing: the worker has
taken the step of a send, and what was put out is the query, on its transport. -/
structure Called (get_query_rr_str : Bytes → Bytes) (conn_type : Bytes) (ids : List Nat)
    (msg : DNSMsg) (output : Option Output) (c d : DNSClient) : Prop where
  steps : ∃ events, (∀ event ∈ events, event.sends = true) ∧ Run get_query_rr_str c events d
  returned : output = none → d = c ∧ (raw_copy msg = [] ∨ conn_type ∉ conn_set ∨
    draw_id (get_query_rr_str (raw_copy msg)) c ids = none)
  puts : ∀ put, output = some put → PutsOut d.toOptions conn_type msg (d.owner put) put
  scheduled : d.write_events = c.write_events ++ (output.toList.flatMap Output.scheduled)

variable {conn_type : Bytes} {msg : DNSMsg} {output : Option Output}

private theorem called_udp {ids : List Nat} {now : Timeval} {new_fd : Fd} {read_ev : Ptr}
    (consistent : c.toSockets.Consistent) (closed : new_fd ∉ c.open_fds)
    (datagrams : use_udp conn_type msg = true)
    (ran : c.send_query_udp_output get_query_rr_str msg ids now new_fd read_ev =
      .ok (output, d)) : Called get_query_rr_str conn_type ids msg output c d := by
  obtain ⟨stepped, nothing, something⟩ := send_query_udp_output_cases ran
  have options := step_toOptions stepped
  refine
    { steps := ⟨[.send_query_udp msg ids now new_fd read_ev], ?_, .next closed stepped (.done d)⟩
      returned := fun none => ⟨(nothing none).1, (nothing none).2.imp id Or.inr⟩
      puts := ?_
      scheduled := ?_ }
  · intro event member
    rw [List.mem_singleton.mp member]
    rfl
  · intro put same
    obtain ⟨fd, id, ready, socket, rfl, sockets, _writes⟩ := something put same
    have owned := udp_socket_owner consistent closed socket
    refine ⟨datagrams, ?_, id, rfl⟩
    rw [options, owner, sockets]
    exact owned
  · cases output with
    | none =>
        rw [(nothing rfl).1]
        exact (List.append_nil _).symm
    | some put =>
        obtain ⟨fd, id, ready, _socket, rfl, _sockets, writes⟩ := something put rfl
        exact writes

private theorem called_tcp {ids : List Nat} {now : Timeval} {new_bev : Ptr}
    (consistent : c.toSockets.Consistent) (free : new_bev ∉ c.live_bevs)
    (stream : (use_tls conn_type || use_tcp conn_type msg) = true)
    (ran : c.send_query_tcp_output get_query_rr_str msg ids now new_bev = .ok (output, d)) :
    Called get_query_rr_str conn_type ids msg output c d := by
  obtain ⟨stepped, nothing, something⟩ := send_query_tcp_output_cases ran
  refine
    { steps := ⟨[.send_query_tcp msg ids now new_bev], ?_, .next free stepped (.done d)⟩
      returned := fun none => ⟨(nothing none).1, (nothing none).2.imp id Or.inr⟩
      puts := ?_
      scheduled := ?_ }
  · intro event member
    rw [List.mem_singleton.mp member]
    rfl
  · intro put same
    obtain ⟨bev, id, results, rfl, _header, connection⟩ := something put same
    refine ⟨stream, tcp_connection_owner ?_ ?_ connection, id, rfl⟩
    · rw [log_query_timing_toSockets]
      exact consistent
    · rw [log_query_timing_toSockets]
      exact free
  · cases output with
    | none =>
        rw [(nothing rfl).1]
        exact (List.append_nil _).symm
    | some put =>
        obtain ⟨bev, id, results, rfl, _header, connection⟩ := something put rfl
        have kept : d.write_events = c.write_events := by
          rcases tcp_connection_cases connection with ⟨_found, rfl⟩ | ⟨_none, _bev, _live, rfl⟩
          · exact log_query_timing_write_events _ _ _ _
          · exact log_query_timing_write_events _ _ _ _
        rw [kept]
        exact (List.append_nil _).symm

theorem send_query_called {kernel : Kernel} {call : Nat} (consistent : c.toSockets.Consistent)
    (ran : c.send_query get_query_rr_str kernel conn_type call msg = .ok (output, d)) :
    Called get_query_rr_str conn_type (kernel.set_random_id call) msg output c d := by
  have free := kernel.bufferevent_free call c.live_bevs
  unfold send_query at ran
  by_cases tls : use_tls conn_type = true
  · rw [if_pos tls] at ran
    exact called_tcp consistent free (by rw [tls]; rfl) ran
  · rw [if_neg tls] at ran
    by_cases tcp : use_tcp conn_type msg = true
    · rw [if_pos tcp] at ran
      exact called_tcp consistent free (by rw [tcp, Bool.or_true]) ran
    · rw [if_neg tcp] at ran
      by_cases udp : use_udp conn_type msg = true
      · rw [if_pos udp] at ran
        exact called_udp consistent (kernel.socket_closed call c.open_fds) udp ran
      · rw [if_neg udp] at ran
        obtain ⟨rfl, rfl⟩ := Prod.mk.inj (Except.ok.inj ran)
        have unknown : conn_type ∉ conn_set := by
          intro accepted
          have one := one_transport accepted msg
          rw [Bool.eq_false_iff.mpr tls, Bool.eq_false_iff.mpr tcp,
            Bool.eq_false_iff.mpr udp] at one
          cases one
        exact
          { steps := ⟨[], List.forall_mem_nil _, .done _⟩
            returned := fun _none => ⟨rfl, Or.inr (Or.inl unknown)⟩
            puts := fun put impossible => by cases impossible
            scheduled := (List.append_nil _).symm }

end calls

end DNSClient

end LDPlayer
